import WarehousePG.AppendOnly.Visimap

namespace WarehousePG.AppendOnly

open Framework AppendOnlyVisimapEntry AppendOnlyVisimapStore AppendOnlyVisimapDelete List
open Prod (fst)
open Option (some)

section

variable {S : AppendOnlyVisimapStore} {key : VisimapKey} {live : Option VisimapKey}
  {cache : List (VisimapKey × DeleteData)} {workfile : List (VisimapKey × List Nat)}
  {bitmap : List Nat} {i : Nat} {d : AppendOnlyVisimapDelete}

def Latest (cache : List (VisimapKey × DeleteData)) (i : Nat) (ws : List (VisimapKey × List Nat))
    (key : VisimapKey) (bitmap : List Nat) : Prop :=
  ∃ r∈cache, r.1=key ∧ ∃ j, r.2.workFileOffset=some (i+j) ∧ ws[j]?=some (key,bitmap)

/-- What the write-back needs at place `i`: the places after it that the hash table knows hold a
version of their key, whose tuple the relation still has under the id that the hash table knows. -/
structure Writable (cache : List (VisimapKey × DeleteData)) (i : Nat)
    (ws : List (VisimapKey × List Nat)) (cur : AppendOnlyVisimapStore) : Prop where
  keys : UniqueKeys fst cache
  recorded : ∀ version∈ws, ∃ r∈cache, r.1=version.1
  placed : ∀ r∈cache, ∀ j, r.2.workFileOffset=some (i+j) → ∃ bitmap, ws[j]?=some (r.1,bitmap) ∧
    InRange bitmap ∧ r.1.Aligned ∧ r.2.tupleTid=cur.tidAt r.1

variable {version : VisimapKey × List Nat}

theorem latest_cons (h : Latest cache (i+1) ws key bitmap) :
    Latest cache i (version::ws) key bitmap := by
  obtain ⟨r,hr,hrkey,j,hoff,hj⟩ := h
  exact ⟨r,hr,hrkey,j+1,by rw [hoff]; congr 1; omega,hj⟩

theorem latest_of_cons (h : Latest cache i (version::ws) key bitmap) :
    (version=(key,bitmap) ∧ ∃ r∈cache, r.1=key ∧ r.2.workFileOffset=some i) ∨
      Latest cache (i+1) ws key bitmap := by
  obtain ⟨r,hr,hrkey,j,hoff,hj⟩ := h
  cases j with
  | zero => exact .inl ⟨some.inj hj,r,hr,hrkey,hoff⟩
  | succ j => exact .inr ⟨r,hr,hrkey,j,by rw [hoff]; congr 1; omega,hj⟩

theorem not_latest (hkeys : UniqueKeys fst cache) (hr : r∈cache)
    (hoff : r.2.workFileOffset=some i) : ¬Latest cache (i+1) ws r.1 bitmap := by
  rintro ⟨r',hr',hrkey,j,hoff',-⟩
  obtain rfl := hkeys.eq_of_key hr' hr hrkey
  have heq : i=i+1+j := some.inj (hoff.symm.trans hoff')
  omega

theorem Writable.tail (h : Writable cache i (version::ws) cur)
    (hsame : ∀ r∈cache, ∀ j, r.2.workFileOffset=some (i+1+j) → cur'.find r.1=cur.find r.1) :
    Writable cache (i+1) ws cur' := by
  refine ⟨h.keys,fun v hv => h.recorded v (mem_cons_of_mem _ hv),fun r hr j hoff => ?_⟩
  obtain ⟨bitmap,hj,hrng,haln,htid⟩ := h.placed r hr (j+1) (by rw [hoff]; congr 1; omega)
  exact ⟨bitmap,hj,hrng,haln,by rw [htid,tidAt,tidAt,hsame r hr j hoff]⟩

/-- Of each key only the newest version in the work file is written back. -/
theorem writeBack_spec (hcur : cur.WellFormed) (h : Writable cache i ws cur) :
    ∃ stored S', writeBackStashedEntries cache i ws cur=some (stored,S') ∧ S'.WellFormed ∧
      (∀ key bitmap, Latest cache i ws key bitmap → S'.bitsAt key=bitmap) ∧
      (∀ key, (∀ bitmap, ¬Latest cache i ws key bitmap) → S'.find key=cur.find key) ∧
      (stored.map AppendOnlyVisimapEntry.key).Nodup ∧
      ∀ entry∈stored, ∃ key, entry.key=some key ∧ Latest cache i ws key entry.bitmap := by
  induction ws generalizing i cur with
  | nil =>
    refine ⟨[],cur,rfl,hcur,?_,fun _ _ => rfl,nodup_nil,by simp⟩
    rintro key bitmap ⟨r,-,-,j,-,hj⟩
    simp at hj
  | cons version ws ih =>
    obtain ⟨key,data⟩ := version
    obtain ⟨r,hr,hrkey⟩ := h.recorded _ mem_cons_self
    obtain rfl : r.1=key := hrkey
    have hlookup := h.keys.lookup_eq_some hr
    simp only [writeBackStashedEntries,hlookup]
    split
    next hold =>
      -- the version is not the latest one of its key
      obtain ⟨stored,S',hrun,hS',hlat,hot,hnd,hsto⟩ :=
        ih hcur (h.tail fun _ _ _ _ => rfl)
      refine ⟨stored,S',hrun,hS',fun k bitmap hk => ?_,fun k hk => ?_,hnd,?_⟩
      · cases latest_of_cons hk with
        | inr hltr => exact hlat k bitmap hltr
        | inl hfirst =>
          obtain ⟨heq,r',hr',hrkey',hoff⟩ := hfirst
          have hkey : r.1=k := congrArg fst heq
          obtain rfl := h.keys.eq_of_key hr' hr (hrkey'.trans hkey.symm)
          exact absurd hoff hold
      · exact hot k fun bitmap hltr => hk bitmap (latest_cons hltr)
      · intro entry hent
        obtain ⟨k,hk,hltr⟩ := hsto entry hent
        exact ⟨k,hk,latest_cons hltr⟩
    next hnew =>
      have hoff := not_not.mp hnew
      obtain ⟨bitmap,hfirst,hrng,haln,htid⟩ := h.placed r hr 0 hoff
      obtain rfl : data=bitmap := congrArg Prod.snd (some.inj hfirst)
      have hlast : ∀ bitmap, ¬Latest cache (i+1) ws r.1 bitmap :=
        fun bitmap => not_latest h.keys hr hoff
      have hkey : (rebuildEntry r.1 data r.2.tupleTid).key=some r.1 := rfl
      obtain ⟨cur',hstore,hcur',hbits,hfr⟩ := hcur.store_spec hkey htid haln hrng
      have htail : Writable cache (i+1) ws cur' := by
        refine h.tail fun r' hr' j hoff' => hfr r'.1 fun heq => ?_
        obtain rfl := h.keys.eq_of_key hr' hr heq
        have hi : i=i+1+j := some.inj (hoff.symm.trans hoff')
        omega
      obtain ⟨stored,S',hrun,hS',hlat,hot,hnd,hsto⟩ := ih hcur' htail
      simp only [hstore,hrun,Option.map_some]
      refine ⟨_,S',rfl,hS',fun k bitmap hk => ?_,fun k hk => ?_,?_,?_⟩
      · cases latest_of_cons hk with
        | inr hltr => exact hlat k bitmap hltr
        | inl hfirst =>
          obtain ⟨hkey,hdata⟩ := Prod.mk.inj hfirst.1
          rw [← hkey,← hdata,bitsAt,hot r.1 hlast]
          exact hbits
      · have hne : k≠r.1 := by
          rintro rfl
          exact hk data ⟨r,hr,rfl,0,hoff,rfl⟩
        rw [hot k fun bitmap hltr => hk bitmap (latest_cons hltr),hfr k hne]
      · rw [map_cons,nodup_cons]
        refine ⟨fun hmem => ?_,hnd⟩
        obtain ⟨entry,hent,hkey⟩ := mem_map.mp hmem
        obtain ⟨k,hk,hltr⟩ := hsto entry hent
        obtain rfl : k=r.1 := some.inj (hk.symm.trans hkey)
        exact hlast _ hltr
      · refine forall_mem_cons.mpr ⟨⟨r.1,rfl,r,hr,rfl,0,hoff,rfl⟩,fun entry hent => ?_⟩
        obtain ⟨k,hk,hltr⟩ := hsto entry hent
        exact ⟨k,hk,latest_cons hltr⟩

/-- Writing back the stash makes the store exact for every key. -/
theorem Spilled.writeBack (h : Spilled S H live cache workfile) (hS : S.WellFormed)
    (hcur : cur.WellFormed) (hfr : ∀ key, live≠some key → cur.find key=S.find key)
    (hlive : ∀ key, live=some key → Exact S H key (cur.bitsAt key)) (hkeys : UniqueKeys fst c)
    (hfrom : ∀ r∈c, ∀ n, r.2.workFileOffset=some n → r∈cache ∧ live≠some r.1)
    (hto : ∀ r∈cache, live≠some r.1 → r∈c) (hrec : ∀ r∈cache, ∃ r'∈c, r'.1=r.1) :
    ∃ stored S', writeBackStashedEntries c 0 workfile cur=some (stored,S') ∧ S'.WellFormed ∧
      (∀ key, key.Aligned → Exact S H key (S'.bitsAt key)) ∧
      (∀ key, live=some key → S'.find key=cur.find key) ∧
      (stored.map AppendOnlyVisimapEntry.key).Nodup ∧
      ∀ entry∈stored, ∃ key, entry.key=some key ∧ live≠some key ∧
        S'.bitsAt key=entry.bitmap ∧ Exact S H key entry.bitmap := by
  have hver : ∀ key bitmap, Latest c 0 workfile key bitmap →
      live≠some key ∧ Exact S H key bitmap ∧ ∃ r∈cache, r.1=key := by
    rintro key bitmap ⟨r,hr,rfl,j,hoff,hj⟩
    obtain ⟨hr',hne⟩ := hfrom r hr _ hoff
    obtain ⟨i,bitmap',hi,hi',-,hex⟩ := h.latest r hr'
    obtain rfl : i=j := by
      have heq : i=0+j := some.inj (hi.symm.trans hoff)
      omega
    obtain rfl : bitmap'=bitmap := congrArg Prod.snd (some.inj (hi'.symm.trans hj))
    exact ⟨hne,hex hne,r,hr',rfl⟩
  have hwrit : Writable c 0 workfile cur := by
    refine ⟨hkeys,fun version hmem => ?_,fun r hr j hoff => ?_⟩
    · obtain ⟨r,hr,hrkey⟩ := h.recorded version hmem
      obtain ⟨r',hr',hrkey'⟩ := hrec r hr
      exact ⟨r',hr',hrkey'.trans hrkey⟩
    · obtain ⟨hr',hne⟩ := hfrom r hr _ hoff
      obtain ⟨i,bitmap,hi,hi',hrng,-⟩ := h.latest r hr'
      obtain rfl : i=j := by
        have heq : i=0+j := some.inj (hi.symm.trans hoff)
        omega
      refine ⟨bitmap,hi',hrng,h.aligned r hr',?_⟩
      rw [h.tids r hr',tidAt,tidAt,hfr _ hne]
  obtain ⟨stored,S',hrun,hS',hlat,hot,hnd,hsto⟩ := writeBack_spec hcur hwrit
  have hkept : ∀ key, live=some key → S'.find key=cur.find key :=
    fun key hk => hot key fun bitmap hb => (hver key bitmap hb).1 hk
  refine ⟨stored,S',hrun,hS',fun key haln => ?_,hkept,hnd,fun entry hent => ?_⟩
  · by_cases hk : live=some key
    · rw [bitsAt,hkept key hk]
      exact hlive key hk
    · by_cases hstas : ∃ r∈cache, r.1=key
      · obtain ⟨r,hr,rfl⟩ := hstas
        obtain ⟨i,bitmap,hi,hi',-,hex⟩ := h.latest r hr
        rw [hlat r.1 bitmap ⟨r,hto r hr hk,rfl,i,by rw [hi,Nat.zero_add],hi'⟩]
        exact hex hk
      · have hfind := hot key fun bitmap hb => hstas (hver key bitmap hb).2.2
        rw [bitsAt,hfind,hfr key hk]
        exact h.exact_absent hS hk haln fun r hr hrkey => hstas ⟨r,hr,hrkey⟩
  · obtain ⟨key,hkey,hb⟩ := hsto entry hent
    exact ⟨key,hkey,(hver key _ hb).1,hlat key _ hb,(hver key _ hb).2.1⟩

theorem writeBack_of_isEmpty (hrec : ∀ version∈workfile, ∃ r∈c, r.1=version.1) :
    (if c.isEmpty then some ([],cur) else writeBackStashedEntries c 0 workfile cur)=
      writeBackStashedEntries c 0 workfile cur := by
  cases c with
  | cons r c => rfl
  | nil =>
    cases workfile with
    | nil => rfl
    | cons version ws => simpa using hrec version mem_cons_self

section Invalidating

variable {r : VisimapKey × DeleteData}

theorem invalidate_key (r : VisimapKey × DeleteData) :
    (if r.1=key then (r.1,⟨none,none⟩) else r).1=r.1 := by
  split
  next => rfl
  next => rfl

theorem uniqueKeys_invalidate (h : UniqueKeys fst cache) :
    UniqueKeys fst (invalidate cache key) := by
  have hfst : (invalidate cache key).map fst=cache.map fst := by
    rw [invalidate,map_map]
    exact map_congr_left fun r _ => invalidate_key r
  rw [UniqueKeys,hfst]
  exact h

theorem mem_invalidate (hr : r∈cache) (hne : r.1≠key) : r∈invalidate cache key :=
  mem_map.mpr ⟨r,hr,if_neg hne⟩

theorem mem_of_mem_invalidate (hr : r∈invalidate cache key)
    (hoff : r.2.workFileOffset=some n) : r∈cache ∧ r.1≠key := by
  obtain ⟨r',hr',rfl⟩ := mem_map.mp hr
  split at hoff
  next => cases hoff
  next hne =>
    rw [if_neg hne]
    exact ⟨hr',hne⟩

end Invalidating

/-- The finished map hides what was hidden before and what the run hid. -/
theorem finish_spec (hS : S.WellFormed) (h : DeleteInv S H d) :
    ∃ stored S', d.finish=some (stored,S') ∧ S'.WellFormed ∧
      (∀ tupleId, S'.Hides tupleId ↔ S.Hides tupleId ∨ tupleId∈H) ∧
      (stored.map AppendOnlyVisimapEntry.key).Nodup ∧
      ∀ entry∈stored, ∃ key, entry.key=some key ∧ S'.bitsAt key=entry.bitmap ∧
        Exact S H key entry.bitmap := by
  have hhid : ∀ S' : AppendOnlyVisimapStore, S'.WellFormed →
      (∀ key, key.Aligned → Exact S H key (S'.bitsAt key)) →
      ∀ tupleId, S'.Hides tupleId ↔ S.Hides tupleId ∨ tupleId∈H := by
    intro S' hS' hex tupleId
    rw [hS'.hides_iff]
    exact (hex _ (keyOf_aligned tupleId)).offset_mem_iff hS
  unfold finish
  dsimp only
  split
  next hdty =>
    obtain ⟨key,hkey⟩ := Option.ne_none_iff_exists'.mp (h.entry.valid hdty)
    obtain ⟨haln,htid,hex,-⟩ := h.entry.loaded key hkey
    have hlive : liveKey d.visimapEntry=some key := by simp [liveKey,hdty,hkey]
    have hspl := hlive ▸ h.spilled
    obtain ⟨cur,hstore,hcur,hbits,hfr⟩ := hS.store_spec hkey htid haln hex.inRange
    have hrec : ∀ r∈d.dirtyEntryCache, ∃ r'∈invalidate d.dirtyEntryCache key, r'.1=r.1 :=
      fun r hr => ⟨_,mem_map.mpr ⟨r,hr,rfl⟩,invalidate_key r⟩
    obtain ⟨stored,S',hrun,hS',hall,hkept,hnd,hsto⟩ := hspl.writeBack hS hcur
      (fun k hk => hfr k fun heq => hk (congrArg some heq.symm))
      (fun k hk => by rw [← some.inj hk,hbits]; exact hex)
      (uniqueKeys_invalidate hspl.keys)
      (fun r hr n hoff => (mem_of_mem_invalidate hr hoff).imp_right fun hne heq =>
        hne (some.inj heq).symm)
      (fun r hr hne => mem_invalidate hr fun heq => hne (congrArg some heq.symm)) hrec
    rw [h.store,hstore,hkey]
    dsimp only
    rw [writeBack_of_isEmpty,hrun]
    · refine ⟨_,S',rfl,hS',hhid S' hS' hall,?_,?_⟩
      · rw [map_cons,nodup_cons]
        refine ⟨fun hmem => ?_,hnd⟩
        obtain ⟨entry,hent,heq⟩ := mem_map.mp hmem
        obtain ⟨k,hk,hne,-,-⟩ := hsto entry hent
        exact hne (hkey.symm.trans (heq.symm.trans hk))
      · have hbits' : S'.bitsAt key=d.visimapEntry.bitmap := by rw [bitsAt,hkept key rfl,← hbits]; rfl
        refine forall_mem_cons.mpr ⟨⟨key,hkey,hbits',hex⟩,fun entry hent => ?_⟩
        obtain ⟨k,hk,-,hk'⟩ := hsto entry hent
        exact ⟨k,hk,hk'⟩
    · intro version hver
      obtain ⟨r,hr,hrkey⟩ := hspl.recorded version hver
      obtain ⟨r',hr',hrkey'⟩ := hrec r hr
      exact ⟨r',hr',hrkey'.trans hrkey⟩
  next hclean =>
    have hlive : liveKey d.visimapEntry=none := by simp [liveKey,hclean]
    have hspl := hlive ▸ h.spilled
    obtain ⟨stored,S',hrun,hS',hall,hkept,hnd,hsto⟩ := hspl.writeBack hS hS
      (fun _ _ => rfl) (by simp) hspl.keys (fun r hr _ _ => ⟨hr,by simp⟩)
      (fun r hr _ => hr) (fun r hr => ⟨r,hr,rfl⟩)
    rw [writeBack_of_isEmpty hspl.recorded,h.store,hrun]
    refine ⟨stored,S',rfl,hS',hhid S' hS' hall,hnd,fun entry hent => ?_⟩
    obtain ⟨k,hk,-,hk'⟩ := hsto entry hent
    exact ⟨k,hk,hk'⟩

inductive Call where
  | hide (aoTupleId : AOTupleId)
  | isVisible (aoTupleId : AOTupleId)
  deriving DecidableEq

inductive Answer where
  | hidden (result : TMResult)
  | visible (visible : Bool)
  deriving DecidableEq

open Call

def Call.perform (d : AppendOnlyVisimapDelete) : Call → Option (Answer × AppendOnlyVisimapDelete)
  | .hide aoTupleId => (d.hide aoTupleId).map fun r => (.hidden r.1,r.2)
  | .isVisible aoTupleId => (d.isVisible aoTupleId).map fun r => (.visible r.1,r.2)

def performAll (d : AppendOnlyVisimapDelete) :
    List Call → Option (List Answer × AppendOnlyVisimapDelete)
  | [] => some ([],d)
  | call::calls =>
    match call.perform d with
    | none => none
    | some r => (performAll r.2 calls).map fun rest => (r.1::rest.1,rest.2)

def hiddenBy (H : List AOTupleId) : List Call → List AOTupleId
  | [] => H
  | .hide aoTupleId::calls => hiddenBy (aoTupleId::H) calls
  | .isVisible _::calls => hiddenBy H calls

theorem mem_hiddenBy : tupleId∈hiddenBy H calls ↔ hide tupleId∈calls ∨ tupleId∈H := by
  induction calls generalizing H with
  | nil => simp [hiddenBy]
  | cons call calls ih =>
    cases call with
    | hide t =>
      rw [hiddenBy,ih,mem_cons,mem_cons,hide.injEq]
      exact or_left_comm.trans or_assoc.symm
    | isVisible t => simp [hiddenBy,ih]

def Reflects (S : AppendOnlyVisimapStore) (H : List AOTupleId) : Call → Answer → Prop
  | .isVisible tupleId, .visible visible => visible=true ↔ ¬(S.Hides tupleId ∨ tupleId∈H)
  | .hide _, .hidden _ => True
  | _, _ => False

theorem perform_spec (hS : S.WellFormed) (h : DeleteInv S H d) (call : Call) :
    ∃ answer d', call.perform d=some (answer,d') ∧ DeleteInv S (hiddenBy H [call]) d' ∧
      Reflects S H call answer := by
  cases call with
  | hide t =>
    obtain ⟨result,d',hhide,hinv⟩ := hide_spec hS h t
    exact ⟨.hidden result,d',by rw [perform,hhide]; rfl,hinv,trivial⟩
  | isVisible t =>
    obtain ⟨visible,d',hvis,hinv,hiff⟩ := isVisible_spec hS h t
    exact ⟨.visible visible,d',by rw [perform,hvis]; rfl,hinv,hiff⟩

theorem hiddenBy_cons (call : Call) (calls : List Call) :
    hiddenBy H (call::calls)=hiddenBy (hiddenBy H [call]) calls := by
  cases call with
  | hide t => rfl
  | isVisible t => rfl

/-- A run over the calls from a step: what each call keeps about the tuple ids hidden so far holds at
the end, and each answer has what the call at its place promises. -/
theorem performAll_spec {Inv : List AOTupleId → AppendOnlyVisimapDelete → Prop}
    {Post : List AOTupleId → Call → Answer → Prop}
    (hstep : ∀ {H d}, Inv H d → ∀ call : Call, ∃ answer d', call.perform d=some (answer,d') ∧
      Inv (hiddenBy H [call]) d' ∧ Post H call answer) (h : Inv H d) (calls : List Call) :
    ∃ answers d', performAll d calls=some (answers,d') ∧ Inv (hiddenBy H calls) d' ∧
      ∀ (i : Nat) call, calls[i]?=some call → ∃ answer, answers[i]?=some answer ∧
        Post (hiddenBy H (calls.take i)) call answer := by
  induction calls generalizing H d with
  | nil => exact ⟨[],d,rfl,h,by simp⟩
  | cons call calls ih =>
    obtain ⟨answer,d1,hper,hinv,hpost⟩ := hstep h call
    obtain ⟨answers,d2,hrest,hinv2,hall⟩ := ih hinv
    refine ⟨answer::answers,d2,by simp [performAll,hper,hrest],hiddenBy_cons call calls ▸ hinv2,?_⟩
    intro i call' hcall
    cases i with
    | zero =>
      cases hcall
      exact ⟨answer,rfl,hpost⟩
    | succ i =>
      rw [take_succ_cons,hiddenBy_cons]
      exact hall i call' hcall

theorem mem_hiddenBy_nil {tupleId : AOTupleId} {calls : List Call} :
    tupleId∈hiddenBy [] calls ↔ hide tupleId∈calls := by simp [mem_hiddenBy]

/-- For every sequence of calls the run succeeds, and each answer about the visibility of a tuple id
reflects the hides before it. After the finish the relation hides what it hid before and what the run
hid, it has one tuple for a key at most, and the finish stored each entry at most once, with the bits
of all the hides of the run. -/
theorem delete_run_exact (S : AppendOnlyVisimapStore) (hS : S.WellFormed) (calls : List Call) :
    ∃ answers d stored S', performAll (init S) calls=some (answers,d) ∧ d.finish=some (stored,S') ∧
      (∀ (i : Nat) tupleId, calls[i]?=some (.isVisible tupleId) → ∃ visible,
        answers[i]?=some (.visible visible) ∧
        (visible=true ↔ ¬(S.Hides tupleId ∨ hide tupleId∈calls.take i))) ∧
      (∀ tupleId, S'.Hides tupleId ↔ S.Hides tupleId ∨ hide tupleId∈calls) ∧
      S'.WellFormed ∧ (stored.map AppendOnlyVisimapEntry.key).Nodup ∧
      ∀ entry∈stored, ∃ key, entry.key=some key ∧ S'.bitsAt key=entry.bitmap ∧
        ∀ off, off∈entry.bitmap ↔ off<appendonlyVisimapMaxRange ∧
          (off∈S.bitsAt key ∨ hide ⟨key.segno,key.firstRowNum+off⟩∈calls) := by
  obtain ⟨answers,d,hrun,hinv,hrefl⟩ :=
    performAll_spec (perform_spec hS) (DeleteInv.init S) calls
  obtain ⟨stored,S',hfin,hS',hhid,hnd,hsto⟩ := finish_spec hS hinv
  refine ⟨answers,d,stored,S',hrun,hfin,?_,?_,hS',hnd,?_⟩
  · intro i tupleId hcall
    obtain ⟨answer,hans,href⟩ := hrefl i _ hcall
    cases answer with
    | hidden result => exact href.elim
    | visible visible =>
      refine ⟨visible,hans,?_⟩
      rw [← mem_hiddenBy_nil]
      exact href
  · intro tupleId
    rw [hhid,mem_hiddenBy_nil]
  · intro entry hent
    obtain ⟨key,hkey,hbits,hex⟩ := hsto entry hent
    refine ⟨key,hkey,hbits,fun off => ?_⟩
    rw [hex off,mem_hiddenBy_nil]

def oneHidden : AppendOnlyVisimapStore := ⟨[⟨0,⟨1,0⟩,some [0]⟩],1⟩

theorem oneHidden_wellFormed : oneHidden.WellFormed :=
  ⟨nodup_singleton _,nodup_singleton _,by decide,fun tuple ht => by
    obtain rfl := mem_singleton.mp ht
    exact Nat.dvd_zero _,by simp [oneHidden,InRange,VisimapTuple.bits,appendonlyVisimapMaxRange]⟩

theorem delete_run_exact_restashed : oneHidden.WellFormed ∧ ∃ answers d stored S',
      performAll (init oneHidden)
        [.hide ⟨1,5⟩,.hide ⟨1,40000⟩,.hide ⟨1,7⟩,.isVisible ⟨2,1⟩,.isVisible ⟨1,5⟩]=
        some (answers,d) ∧ d.finish=some (stored,S') ∧ S'.WellFormed ∧ S'.Hides ⟨1,7⟩ := by
  have hS := oneHidden_wellFormed
  obtain ⟨answers,d,stored,S',hrun,hfin,-,hhid,hS',-,-⟩ := delete_run_exact oneHidden hS _
  exact ⟨hS,answers,d,stored,S',hrun,hfin,hS',(hhid _).mpr (.inr (by decide))⟩

end

variable {S : AppendOnlyVisimapStore} {H : List AOTupleId} {d d' : AppendOnlyVisimapDelete}
  {tupleId : AOTupleId} {key : VisimapKey}

def Touched (H : List AOTupleId) (key : VisimapKey) : Prop := ∃ t∈H, keyOf t=key

structure TouchedInv (S : AppendOnlyVisimapStore) (H : List AOTupleId)
    (d : AppendOnlyVisimapDelete) : Prop extends DeleteInv S H d where
  stashed : ∀ r∈d.dirtyEntryCache, Touched H r.1
  dirty : d.visimapEntry.dirty=true → ∀ key, d.visimapEntry.key=some key → Touched H key

/-- What a hide returns: the state of the entry decides between the two refusals. -/
def Returns (S : AppendOnlyVisimapStore) (H : List AOTupleId) (tupleId : AOTupleId) :
    TMResult → Prop
  | .tmOk => ¬(S.Hides tupleId ∨ tupleId∈H)
  | .tmSelfModified => (S.Hides tupleId ∨ tupleId∈H) ∧ Touched H (keyOf tupleId)
  | .tmUpdated => S.Hides tupleId ∧ ¬Touched H (keyOf tupleId)

theorem TouchedInv.init (S : AppendOnlyVisimapStore) :
    TouchedInv S [] (AppendOnlyVisimapDelete.init S) :=
  ⟨DeleteInv.init S,by simp [AppendOnlyVisimapDelete.init],
    by simp [AppendOnlyVisimapDelete.init,AppendOnlyVisimapEntry.init]⟩

theorem find_dirty (h : ∀ r∈d.dirtyEntryCache, Touched H r.1) {entry : AppendOnlyVisimapEntry}
    (hfind : d.find tupleId=some entry) (hdty : entry.dirty=true) : Touched H (keyOf tupleId) := by
  simp only [AppendOnlyVisimapDelete.find] at hfind
  split at hfind
  next r hr =>
    obtain ⟨hmem,hrkey⟩ := mem_of_lookup hr
    exact hrkey ▸ h r hmem
  next =>
    split at hfind
    next =>
      cases hfind
      simp [copyout] at hdty
    next =>
      cases hfind
      simp [new] at hdty

theorem TouchedInv.loadTuple (h : TouchedInv S H d) (hS : S.WellFormed) (tupleId : AOTupleId) :
    ∃ d', d.loadTuple tupleId=some d' ∧ TouchedInv S H d' ∧
      d'.visimapEntry.key=some (keyOf tupleId) := by
  obtain ⟨d',hload,hinv,hkey⟩ := loadTuple_spec hS h.toDeleteInv tupleId
  refine ⟨d',hload,?_,hkey⟩
  unfold AppendOnlyVisimapDelete.loadTuple at hload
  split at hload
  next =>
    cases hload
    exact h
  next =>
    have hpar : ∀ parked : AppendOnlyVisimapDelete,
        (∀ r∈parked.dirtyEntryCache, Touched H r.1) → (parked.find tupleId).map
          (fun entry => { parked with visimapEntry := entry })=some d' → TouchedInv S H d' := by
      intro parked hstas hfind
      obtain ⟨entry,hentry,rfl⟩ := Option.map_eq_some_iff.mp hfind
      refine ⟨hinv,hstas,fun hdty key heq => ?_⟩
      obtain rfl : keyOf tupleId=key := Option.some.inj (hkey.symm.trans heq)
      exact find_dirty hstas hentry hdty
    split at hload
    next key hdty hkey' =>
      refine hpar (d.stash key) (fun r hr => ?_) hload
      obtain heq | hmem := List.mem_cons.mp hr
      · exact heq ▸ h.dirty hdty key hkey'
      · exact h.stashed r (mem_remove.mp hmem).1
    next => exact hpar d h.stashed hload

theorem DeleteInv.clean (h : DeleteInv S H d) (hkey : d.visimapEntry.key=some key)
    (hcln : ¬d.visimapEntry.dirty=true) : ¬Touched H key := by
  have hcln := Bool.eq_false_iff.mpr hcln
  rintro ⟨t,ht,rfl⟩
  obtain hlive | ⟨r,hr,hrkey⟩ := h.spilled.covered t ht
  · simp [liveKey,hcln] at hlive
  · exact (h.entry.loaded _ hkey).2.2.2 hcln r hr hrkey

/-- What a hide returns, in terms of the store and of the entries touched so far. -/
theorem hide_returns (hS : S.WellFormed) (h : TouchedInv S H d) (tupleId : AOTupleId) :
    ∃ result d', d.hide tupleId=some (result,d') ∧ TouchedInv S (tupleId::H) d' ∧
      Returns S H tupleId result := by
  obtain ⟨result,d',hhide,hinv'⟩ := hide_spec hS h.toDeleteInv tupleId
  obtain ⟨l,hload,hinv,hkey⟩ := h.loadTuple hS tupleId
  refine ⟨result,d',hhide,?_⟩
  simp only [hide,hload,Option.map_some,Option.some.injEq,Prod.mk.injEq] at hhide
  obtain ⟨rfl,rfl⟩ := hhide
  refine ⟨⟨hinv',fun r hr => ?_,fun _ key heq => ?_⟩,?_⟩
  · exact (hinv.stashed r hr).imp fun _ ht => ht.imp_left (List.mem_cons_of_mem _)
  · rw [(hideTuple_spec hkey).1,hkey] at heq
    exact ⟨tupleId,List.mem_cons_self,Option.some.inj heq⟩
  · have hmem := (hinv.entry.loaded _ hkey).2.2.1.offset_mem_iff hS
    unfold hideTuple
    rw [rowNumOffset_eq hkey]
    split
    next hvis => exact fun hhid => hvis (hmem.mpr hhid)
    next hhid =>
      have hhid := hmem.mp (not_not.mp hhid)
      split
      next hdty => exact ⟨hhid,hinv.dirty hdty _ hkey⟩
      next hcln =>
        have hunt := hinv.clean hkey hcln
        exact ⟨hhid.resolve_right fun hmem => hunt ⟨_,hmem,rfl⟩,hunt⟩

theorem perform_returns (hS : S.WellFormed) (h : TouchedInv S H d) (call : Call) :
    ∃ answer d', call.perform d=some (answer,d') ∧ TouchedInv S (hiddenBy H [call]) d' ∧
      ∀ tupleId, call=.hide tupleId → ∃ result, answer=.hidden result ∧ Returns S H tupleId result := by
  cases call with
  | hide t =>
    obtain ⟨result,d',hhide,hinv,hret⟩ := hide_returns hS h t
    refine ⟨.hidden result,d',by rw [Call.perform,hhide]; rfl,hinv,?_⟩
    intro _ heq
    cases heq
    exact ⟨result,rfl,hret⟩
  | isVisible t =>
    obtain ⟨d',hload,hinv,-⟩ := h.loadTuple hS t
    refine ⟨_,d',by rw [Call.perform,AppendOnlyVisimapDelete.isVisible,hload]; rfl,hinv,?_⟩
    intro _ heq
    cases heq

/-- In every delete run each hide returns `tmOk` for a visible tuple id, `tmSelfModified` for one that
the run has hidden and `tmUpdated` for one that was hidden before the run, exactly when in the last
case the run has made no hide for a tuple id of the same entry yet. -/
theorem hide_result_exact (S : AppendOnlyVisimapStore) (hS : S.WellFormed) (calls : List Call) :
    ∃ answers d, performAll (init S) calls=some (answers,d) ∧
      ∀ (i : Nat) tupleId, calls[i]?=some (.hide tupleId) →
        ∃ result, answers[i]?=some (.hidden result) ∧
          (((result=.tmOk ↔ ¬S.Hides tupleId ∧ Call.hide tupleId∉calls.take i) ∧
            (result=.tmSelfModified ↔ Call.hide tupleId∈calls.take i) ∧
            (result=.tmUpdated ↔ S.Hides tupleId)) ↔
          (S.Hides tupleId → ∀ t, keyOf t=keyOf tupleId → Call.hide t∉calls.take i)) := by
  obtain ⟨answers,d,hrun,-,hansw⟩ :=
    performAll_spec (perform_returns hS) (TouchedInv.init S) calls
  refine ⟨answers,d,hrun,fun i tupleId hcall => ?_⟩
  obtain ⟨answer,hans,hret⟩ := hansw i _ hcall
  obtain ⟨result,rfl,hrst⟩ := hret tupleId rfl
  refine ⟨result,hans,?_⟩
  simp only [← mem_hiddenBy_nil]
  cases result with
  | tmOk =>
    obtain ⟨hvis,hnot⟩ := not_or.mp hrst
    simp [hvis,hnot]
  | tmSelfModified =>
    -- the entry is dirty, so a tuple id hidden before the run is reported as hidden by it
    obtain ⟨hhid,t,ht,heq⟩ := hrst
    constructor
    · rintro ⟨-,-,hupd⟩ hhides
      exact nomatch hupd.mpr hhides
    · intro hfirst
      have hnot : ¬S.Hides tupleId := fun hhides => hfirst hhides t heq ht
      simp [hnot,hhid.resolve_left hnot]
  | tmUpdated =>
    have hnot : tupleId∉hiddenBy [] (calls.take i) := fun hmem => hrst.2 ⟨tupleId,hmem,rfl⟩
    refine iff_of_true (by simp [hnot,hrst.1]) fun _ t heq ht => hrst.2 ⟨t,ht,heq⟩

theorem oneHidden_hides : oneHidden.Hides ⟨1,0⟩ :=
  ⟨_,List.mem_cons_self,rfl,0,List.mem_cons_self,rfl⟩

theorem hide_result_exact_updated : oneHidden.WellFormed ∧ oneHidden.Hides ⟨1,0⟩ ∧ ∃ answers d,
    performAll (init oneHidden) [.hide ⟨1,0⟩]=some (answers,d) ∧
      answers[0]?=some (.hidden .tmUpdated) := by
  obtain ⟨answers,d,hrun,hall⟩ := hide_result_exact oneHidden oneHidden_wellFormed [.hide ⟨1,0⟩]
  obtain ⟨result,hans,hiff⟩ := hall 0 ⟨1,0⟩ rfl
  obtain ⟨-,-,hupd⟩ := hiff.mpr (by simp)
  exact ⟨oneHidden_wellFormed,oneHidden_hides,answers,d,hrun,hupd.mpr oneHidden_hides ▸ hans⟩

theorem stored_hide_selfModified : oneHidden.WellFormed ∧ oneHidden.Hides ⟨1,0⟩ ∧
    (performAll (init oneHidden) [.hide ⟨1,5⟩,.hide ⟨1,0⟩]).map Prod.fst=
      some [.hidden .tmOk,.hidden .tmSelfModified] :=
  ⟨oneHidden_wellFormed,oneHidden_hides,by decide⟩

end WarehousePG.AppendOnly
