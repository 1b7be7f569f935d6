import WarehousePG.Dtm.CoordinatorLog

namespace WarehousePG.Dtm

open Framework Log List Nat

def Neutral (x : Record) : Prop := ∀ n, redoNextGxid n x=n

/-- A replay from `lo` that starts with `v` and reaches at least the flushed WAL ends at or
above `b`. -/
def Covers (wal : List Record) (flushed b lo v : Nat) : Prop :=
  ∀ hi, flushed≤hi → b≤replay redoNextGxid wal lo hi v

/-- A replay from `lo` that reaches the record at position `k` ends exactly at `l`. -/
def Pinned (wal : List Record) (k l lo v : Nat) : Prop :=
  ∀ hi, k<hi → replay redoNextGxid wal lo hi v=l

theorem redoNextGxid_cases (x : Record) : Neutral x ∨ ∃ l, ∀ n, redoNextGxid n x=l := by
  cases x with
  | nextGxid g => exact .inr ⟨g,fun _ => rfl⟩
  | checkpoint sd r g gs =>
    cases sd with
    | false => exact .inl fun _ => rfl
    | true => exact .inr ⟨g,fun _ => rfl⟩
  | distributedCommit _ | distributedForget _ | latestCompletedGxid _ | other =>
    exact .inl fun _ => rfl

theorem foldl_redoNextGxid_cases (l : List Record) :
    (∀ v, l.foldl redoNextGxid v=v) ∨ ∃ w, ∀ v, l.foldl redoNextGxid v=w := by
  induction l with
  | nil => exact .inl fun _ => rfl
  | cons x l ih =>
    simp only [foldl_cons]
    rcases ih with ih | ⟨w,hw⟩
    · rcases redoNextGxid_cases x with hx | ⟨w,hw⟩
      · exact .inl fun v => by rw [ih,hx]
      · exact .inr ⟨w,fun v => by rw [ih,hw]⟩
    · exact .inr ⟨w,fun v => hw _⟩

variable {wal : List Record} {f b lo : Nat}

theorem Covers.concat (h : Covers wal f b lo v) (x : Record)
    (hx : ∀ n, b≤n → b≤redoNextGxid n x) : Covers (wal ++ [x]) f b lo v := by
  intro hi hf
  rw [replay_concat]
  split_ifs
  · exact hx _ (h hi hf)
  · exact h hi hf

theorem Covers.mono (h : Covers wal f b lo v) (hf : f≤f') (hb : b'≤b) : Covers wal f' b' lo v :=
  fun hi hhi => hb.trans (h hi (hf.trans hhi))

theorem Covers.self_mono (h : Covers wal f b lo b) (hb : b'≤b) : Covers wal f b' lo b' := by
  intro hi hf
  have hb' := h hi hf
  unfold replay at hb' ⊢
  rcases foldl_redoNextGxid_cases ((wal.take hi).drop lo) with hv | ⟨w,hw⟩
  · exact (hv b').ge
  · rw [hw] at hb' ⊢
    omega

variable {k l : Nat}

theorem Pinned.concat (h : Pinned wal k l lo v)
    (hx : Neutral x) : Pinned (wal ++ [x]) k l lo v := by
  intro hi hk
  rw [replay_concat]
  split_ifs
  · rw [hx,h hi hk]
  · exact h hi hk

theorem Pinned.covers (h : Pinned wal k l lo v) (hk : k<f) : Covers wal f l lo v :=
  fun hi hf => (h hi (by omega)).ge

theorem pinned_nextGxid (wal : List Record) (l lo v : Nat) (hlo : lo≤wal.length) :
    Pinned (wal ++ [.nextGxid l]) wal.length l lo v := by
  intro hi hk
  rw [replay_concat,if_pos ⟨hk,hlo⟩]
  rfl

theorem pinned_nextGxid_self (wal : List Record) (l lo : Nat) :
    Pinned (wal ++ [.nextGxid l]) wal.length l lo l := by
  by_cases hlo : lo≤wal.length
  · exact pinned_nextGxid wal l lo l hlo
  · intro hi _
    exact replay_of_length_le _ _ _ _ (by simp; omega) _

theorem Neutral.covers (hx : Neutral x) (b n : Nat) (hn : b≤n) :
    b≤redoNextGxid n x := (hx n).symm ▸ hn

/-- What the generator promises to stay at or above after a crash: in a shutdown only what was
handed out counts, otherwise the whole current batch. -/
def Log.bound (s : Log) : Nat :=
  if s.phase=.shutdown then s.nextGxid else s.nextGxid+s.gxidCount

/-- The value of a record that sets `nextGxid` keeps clear of the end of the id space. -/
def RecordFits (prefetch : Nat) : Record → Prop
  | .nextGxid g => g+prefetch<lastGxid
  | .checkpoint true _ g _ => g+prefetch<lastGxid
  | _ => True

def CkptOk (prefetch : Nat) (s : Log) : Prop :=
  match s.ckpt with
  | .idle => True
  | .begun sd redo => (sd=true ↔ s.phase≠.normal) ∧ s.start≤redo ∧ redo ≤ s.wal.length
  | .sampled sd redo n => (sd=true ↔ s.phase≠.normal) ∧ redo ≤ s.wal.length ∧
      (sd=true → s.bound=n) ∧ n+prefetch<lastGxid ∧ Covers s.wal s.flushed s.bound redo n
  | .inserted _ redo n _ k => (redo≤k ∧ k<s.wal.length) ∧ n+prefetch<lastGxid ∧
      Covers s.wal s.flushed s.bound redo n

def CkptPinned (s : Log) (k l : Nat) : Prop :=
  match s.ckpt with
  | .sampled _ redo n => Pinned s.wal k l redo n
  | .inserted _ redo n _ _ => Pinned s.wal k l redo n
  | _ => True

def BumpOk (prefetch : Nat) (s : Log) : Prop :=
  match s.bump with
  | .idle => True
  | .locked => s.phase=.normal ∧ s.gxidCount≤prefetchThreshold prefetch
  | .limited l => s.phase=.normal ∧ l=s.nextGxid+s.gxidCount+prefetch ∧ l+prefetch<lastGxid
  | .logged l k => s.phase=.normal ∧ l=s.nextGxid+s.gxidCount+prefetch ∧ l+prefetch<lastGxid ∧
      Pinned s.wal k l s.control.redo s.control.nextGxid ∧
      (∀ lo, s.start≤lo → Pinned s.wal k l lo l) ∧ CkptPinned s k l

structure LogInv (prefetch : Nat) (s : Log) : Prop where
  assigned_lt : ∀ g∈s.assigned, g<s.nextGxid
  assigned_sorted : s.assigned.Pairwise (·<·)
  next_pos : 0<s.nextGxid
  room : s.nextGxid+s.gxidCount+prefetch<lastGxid
  flushed_le : s.flushed ≤ s.wal.length
  start_le : s.start ≤ s.wal.length
  redo_le : s.control.redo ≤ s.flushed
  startup_count : s.phase=.startup → s.gxidCount=0
  wal_fits : ∀ r∈s.wal, RecordFits prefetch r
  control_fits : s.control.nextGxid+prefetch<lastGxid
  control_covers : Covers s.wal s.flushed s.bound s.control.redo s.control.nextGxid
  recent_covers : ∀ lo, s.start≤lo → Covers s.wal s.flushed s.bound lo s.bound
  ckpt_ok : CkptOk prefetch s
  bump_ok : BumpOk prefetch s

variable {s : Log}

attribute [local simp] BumpOk CkptOk bound

theorem logInv_bootstrap (hp : p<2^31) : LogInv p .bootstrap := by
  have hlast : lastGxid=18446744073709551615 := rfl
  constructor
  case control_covers =>
    intro hi hf
    have ht : bootstrap.wal.take hi=bootstrap.wal := take_of_length_le hf
    simp only [replay,ht]
    decide
  case recent_covers =>
    intro lo hlo hi hf
    rw [replay_of_length_le _ _ _ _ hlo]
  all_goals simp [bootstrap,RecordFits,hlast] <;> omega

theorem foldl_redoNextGxid_fits (l : List Record) (v : Nat) (hl : ∀ r∈l, RecordFits p r)
    (hv : v+p<lastGxid) : l.foldl redoNextGxid v+p<lastGxid := by
  induction l generalizing v with
  | nil => exact hv
  | cons x l ih =>
    refine ih _ (fun r hr => hl r (mem_cons_of_mem _ hr)) ?_
    have hx := hl x mem_cons_self
    cases x with
    | nextGxid g => exact hx
    | checkpoint sd r g gs =>
      cases sd with
      | false => exact hv
      | true => exact hx
    | distributedCommit _ | distributedForget _ | latestCompletedGxid _ | other => exact hv

theorem CkptOk.concat (h : CkptOk p s) (x : Record)
    (hx : ∀ n, s.bound≤n → s.bound≤redoNextGxid n x) : CkptOk p { s with wal := s.wal ++ [x] } := by
  cases hc : s.ckpt with
  | idle => simp
  | begun sd redo =>
    simp only [CkptOk,hc,length_append] at h ⊢
    exact ⟨h.1,h.2.1,by omega⟩
  | sampled sd redo n =>
    simp only [CkptOk,hc,length_append] at h ⊢
    exact ⟨h.1,by omega,h.2.2.1,h.2.2.2.1,h.2.2.2.2.concat x hx⟩
  | inserted sd redo n gs k =>
    simp only [CkptOk,hc,length_append] at h ⊢
    exact ⟨⟨h.1.1,by omega⟩,h.2.1,h.2.2.concat x hx⟩

theorem CkptPinned.concat (h : CkptPinned s k l) (hx : Neutral x) :
    CkptPinned { s with wal := s.wal ++ [x] } k l := by
  cases hc : s.ckpt with
  | idle | begun sd redo => simp [CkptPinned]
  | sampled sd redo n | inserted sd redo n gs k' =>
    simp only [CkptPinned,hc] at h ⊢
    exact h.concat hx

theorem BumpOk.concat (h : BumpOk p s) (hx : Neutral x) :
    BumpOk p { s with wal := s.wal ++ [x] } := by
  cases hb : s.bump with
  | idle => simp
  | locked | limited l => simpa only [BumpOk,hb] using h
  | logged l k =>
    simp only [BumpOk,hb] at h ⊢
    obtain ⟨hn,hl,hr,hc,hs,hk⟩ := h
    exact ⟨hn,hl,hr,hc.concat hx,fun lo hlo => (hs lo hlo).concat hx,hk.concat hx⟩

section

variable (h : LogInv p s)
include h

theorem LogInv.concat (x : Record) (hfit : RecordFits p x)
    (hx : ∀ n, s.bound≤n → s.bound≤redoNextGxid n x)
    (hb : BumpOk p { s with wal := s.wal ++ [x] }) : LogInv p { s with wal := s.wal ++ [x] } where
  __ := h
  flushed_le := by have := h.flushed_le; simp only [length_append]; omega
  start_le := by have := h.start_le; simp only [length_append]; omega
  wal_fits := by
    intro r hr
    rcases mem_append.mp hr with hr | hr
    · exact h.wal_fits r hr
    · rw [mem_singleton.mp hr]
      exact hfit
  control_covers := h.control_covers.concat x hx
  recent_covers := fun lo hlo => (h.recent_covers lo hlo).concat x hx
  ckpt_ok := h.ckpt_ok.concat x hx
  bump_ok := hb

theorem LogInv.withBump (b : Bump) (hb : BumpOk p { s with bump := b }) :
    LogInv p { s with bump := b } :=
  { h with bump_ok := hb }

theorem LogInv.withCkpt (c : Ckpt) (hc : CkptOk p { s with ckpt := c })
    (hb : BumpOk p { s with ckpt := c }) : LogInv p { s with ckpt := c } :=
  { h with ckpt_ok := hc, bump_ok := hb }

theorem LogInv.bump_idle (hp : s.phase≠.normal) : s.bump=.idle := by
  have hb := h.bump_ok
  cases hc : s.bump with
  | idle => rfl
  | locked | limited l | logged l k => simp only [BumpOk,hc] at hb; exact absurd hb.1 hp

end

theorem bound_le_batchEnd (s : Log) : s.bound ≤ s.nextGxid+s.gxidCount := by
  unfold bound
  split_ifs <;> omega

section

variable (h : LogInv p s)
include h

theorem LogInv.bound_of_not_normal (hp : s.phase≠.normal) : s.bound=s.nextGxid := by
  unfold bound
  cases hph : s.phase with
  | startup => simp [h.startup_count hph]
  | normal => exact absurd hph hp
  | shutdown => simp

/-- A gxid handed out is below the limit that the log has recorded. -/
theorem activate_inv (hs : s.activate=some t) : LogInv p t := by
  unfold activate at hs
  split_ifs at hs with hc
  obtain ⟨hn,hcnt⟩ := hc
  cases hs
  have hlast : lastGxid=18446744073709551615 := rfl
  have hroom := h.room
  have hmod : (s.nextGxid+1)%2^64=s.nextGxid+1 := mod_eq_of_lt (by omega)
  -- the batch end does not move, so nothing that was promised about it changes
  have hsum : s.nextGxid+1+(s.gxidCount-1)=s.nextGxid+s.gxidCount := by omega
  have hbd : bound { s with
      nextGxid := s.nextGxid+1, gxidCount := s.gxidCount-1,
      assigned := s.assigned ++ [s.nextGxid] }=s.bound := by
    simp only [bound,hn,reduceCtorEq,if_false]
    exact hsum
  rw [hmod]
  constructor
  case assigned_lt =>
    intro g hg
    rcases mem_append.mp hg with hg | hg
    · exact (h.assigned_lt g hg).trans (lt_succ_self _)
    · rw [mem_singleton.mp hg]
      exact lt_succ_self _
  case assigned_sorted =>
    refine pairwise_append.mpr ⟨h.assigned_sorted,pairwise_singleton _ _,?_⟩
    intro a ha b hb
    rw [mem_singleton.mp hb]
    exact h.assigned_lt a ha
  case next_pos => exact succ_pos _
  case room => simp only [hsum]; exact hroom
  case flushed_le => exact h.flushed_le
  case start_le => exact h.start_le
  case redo_le => exact h.redo_le
  case startup_count => intro hst; rw [hn] at hst; cases hst
  case wal_fits => exact h.wal_fits
  case control_fits => exact h.control_fits
  case control_covers => rw [hbd]; exact h.control_covers
  case recent_covers => rw [hbd]; exact h.recent_covers
  case ckpt_ok =>
    have hck := h.ckpt_ok
    unfold CkptOk at hck ⊢
    rw [hbd]
    exact hck
  case bump_ok =>
    have hb := h.bump_ok
    unfold BumpOk at hb ⊢
    simp only [hsum]
    cases hbump : s.bump with
    | locked =>
      simp only [hbump] at hb
      exact ⟨hb.1,(sub_le _ _).trans hb.2⟩
    | idle => trivial
    | limited l => simpa only [hbump] using hb
    | logged l k =>
      simp only [hbump] at hb
      exact hb

theorem bumpAcquire_inv (hs : s.bumpAcquire p=some t) : LogInv p t := by
  unfold bumpAcquire at hs
  split_ifs at hs with hc hcnt
  · cases hs
    exact h
  · cases hs
    exact h.withBump _ ⟨hc.1,Nat.le_of_not_lt hcnt⟩

theorem bumpLimit_inv (hp : p<2^31) (hs : s.bumpLimit p=some t) : LogInv p t := by
  unfold bumpLimit at hs
  by_cases hlock : s.bump=.locked
  case neg => simp [hlock] at hs
  have hb := h.bump_ok
  simp only [BumpOk,hlock,prefetchThreshold] at hb
  have hlast : lastGxid=18446744073709551615 := rfl
  have hroom := h.room
  have h32 : (s.gxidCount+p)%2^32=s.gxidCount+p := mod_eq_of_lt (by omega)
  have h64 : (s.nextGxid+(s.gxidCount+p))%2^64=s.nextGxid+s.gxidCount+p := by
    rw [mod_eq_of_lt (by omega)]
    omega
  simp only [h32,h64] at hs
  split_ifs at hs with hc
  cases hs
  exact h.withBump _ ⟨hb.1,rfl,by omega⟩

theorem bumpInsert_inv (hs : s.bumpInsert=some t) : LogInv p t := by
  unfold bumpInsert at hs
  cases hb : s.bump with
  | limited l =>
    simp only [hb] at hs
    cases hs
    obtain ⟨hn,hl,hr⟩ : s.phase=.normal ∧ l=s.nextGxid+s.gxidCount+p ∧ l+p<lastGxid := by
      simpa only [BumpOk,hb] using h.bump_ok
    have hbl : s.bound≤l := (bound_le_batchEnd s).trans (by omega)
    have h1 : LogInv p { s with wal := s.wal ++ [.nextGxid l] } := by
      refine h.concat _ hr (fun n _ => hbl) ?_
      simp only [BumpOk,hb]
      exact ⟨hn,hl,hr⟩
    refine h1.withBump _ ⟨hn,hl,hr,pinned_nextGxid _ _ _ _ (h.redo_le.trans h.flushed_le),
      fun lo _ => pinned_nextGxid_self _ _ _,?_⟩
    have hck := h.ckpt_ok
    cases hc : s.ckpt with
    | idle | begun sd redo => simp [CkptPinned]
    | sampled sd redo n =>
      simp only [CkptOk,CkptPinned,hc] at hck ⊢
      exact pinned_nextGxid _ _ _ _ hck.2.1
    | inserted sd redo n gs k =>
      simp only [CkptOk,CkptPinned,hc] at hck ⊢
      exact pinned_nextGxid _ _ _ _ (by omega)
  | idle | locked | logged l k => simp [hb] at hs

/-- The limit in memory is raised after the record of the new one is flushed. -/
theorem bumpFinish_inv (hs : s.bumpFinish p=some t) : LogInv p t := by
  unfold bumpFinish at hs
  cases hb : s.bump with
  | logged l k =>
    simp only [hb] at hs
    split_ifs at hs with hk
    cases hs
    obtain ⟨hn,hl,hr,hctl,hrec,hckpt⟩ : s.phase=.normal ∧
        l=s.nextGxid+s.gxidCount+p ∧ l+p<lastGxid ∧
        Pinned s.wal k l s.control.redo s.control.nextGxid ∧
        (∀ lo, s.start≤lo → Pinned s.wal k l lo l) ∧ CkptPinned s k l := by
      simpa only [BumpOk,hb] using h.bump_ok
    have hbd : bound { s with gxidCount := s.gxidCount+p, bump := .idle }=l := by
      simp only [bound,hn,reduceCtorEq,if_false]
      omega
    refine { h with
      room := ?room, startup_count := ?startup_count, control_covers := ?control_covers
      recent_covers := ?recent_covers, bump_ok := ?bump_ok, ckpt_ok := ?ckpt_ok }
    case room => change s.nextGxid+(s.gxidCount+p)+p<lastGxid; omega
    case startup_count => intro hst; rw [hn] at hst; cases hst
    case control_covers => rw [hbd]; exact hctl.covers hk
    case recent_covers => rw [hbd]; exact fun lo hlo => (hrec lo hlo).covers hk
    case bump_ok => trivial
    case ckpt_ok =>
      have hck := h.ckpt_ok
      unfold CkptOk at hck ⊢
      unfold CkptPinned at hckpt
      rw [hbd]
      cases hc : s.ckpt with
      | idle => trivial
      | begun sd redo => simpa only [hc] using hck
      | sampled sd redo n =>
        simp only [hc] at hck hckpt ⊢
        refine ⟨hck.1,hck.2.1,?_,hck.2.2.2.1,hckpt.covers hk⟩
        intro hsd
        exact absurd hn (hck.1.mp hsd)
      | inserted sd redo n gs k' =>
        simp only [hc] at hck hckpt ⊢
        exact ⟨hck.1,hck.2.1,hckpt.covers hk⟩
  | idle | locked | limited l => simp [hb] at hs

theorem ckptBegin_inv (hs : s.ckptBegin=some t) : LogInv p t := by
  unfold ckptBegin at hs
  split_ifs at hs with hc
  cases hs
  refine h.withCkpt _ ⟨by simp,h.start_le,le_refl _⟩ ?_
  have hb := h.bump_ok
  unfold BumpOk at hb ⊢
  cases hbump : s.bump with
  | idle => trivial
  | locked | limited l => simpa only [hbump] using hb
  | logged l k =>
    simp only [hbump] at hb ⊢
    obtain ⟨hn,hl,hr,hctl,hrec,-⟩ := hb
    exact ⟨hn,hl,hr,hctl,hrec,trivial⟩

theorem ckptSample_inv (hs : s.ckptSample=some t) : LogInv p t := by
  unfold ckptSample at hs
  cases hc : s.ckpt with
  | begun sd redo =>
    simp only [hc] at hs
    split_ifs at hs with hbump hsd <;> obtain rfl := Option.some.inj hs
    · have hck := h.ckpt_ok
      simp only [CkptOk,hc] at hck
      have hbd := h.bound_of_not_normal (hck.1.mp hsd)
      have hcov := h.recent_covers redo hck.2.1
      rw [hbd] at hcov
      have hroom := h.room
      refine h.withCkpt _ ⟨hck.1,hck.2.2,fun _ => hbd,by omega,?_⟩ ?_
      · change Covers s.wal s.flushed s.bound redo s.nextGxid
        rw [hbd]
        exact hcov
      · simp [hbump]
    · have hck := h.ckpt_ok
      simp only [CkptOk,hc] at hck
      have hn : s.phase=.normal := by
        by_contra hne
        exact hsd (hck.1.mpr hne)
      have hlast : lastGxid=18446744073709551615 := rfl
      have hroom := h.room
      have hmod : (s.nextGxid+s.gxidCount)%2^64=s.nextGxid+s.gxidCount :=
        mod_eq_of_lt (by omega)
      have hbd : s.bound=s.nextGxid+s.gxidCount := by simp [hn]
      have hcov := h.recent_covers redo hck.2.1
      rw [hmod]
      refine h.withCkpt _ ⟨hck.1,hck.2.2,fun hsd' => absurd hsd' hsd,hroom,?_⟩ ?_
      · change Covers s.wal s.flushed s.bound redo (s.nextGxid+s.gxidCount)
        rw [← hbd]
        exact hcov
      · simp [hbump]
  | idle | sampled sd redo n | inserted sd redo n gs k => simp [hc] at hs

end

theorem ckptInsert_inv (gxids : List Nat) (h : LogInv p s) (hs : s.ckptInsert gxids=some t) :
    LogInv p t := by
  unfold ckptInsert at hs
  cases hc : s.ckpt with
  | sampled sd redo n =>
    simp only [hc] at hs
    cases hs
    obtain ⟨hsd,hredo,hbn,hfit,hcov⟩ : (sd=true ↔ s.phase≠.normal) ∧ redo ≤ s.wal.length ∧
        (sd=true → s.bound=n) ∧ n+p<lastGxid ∧ Covers s.wal s.flushed s.bound redo n := by
      simpa only [CkptOk,hc] using h.ckpt_ok
    -- only the record of a shutdown checkpoint is believed when it is replayed
    have hx : ∀ m, s.bound ≤ m → s.bound≤redoNextGxid m (.checkpoint sd redo n gxids) := by
      intro m hm
      cases sd with
      | false => exact hm
      | true => exact (hbn rfl).le
    have hfits : RecordFits p (.checkpoint sd redo n gxids) := by
      cases sd with
      | false => trivial
      | true => exact hfit
    have hbump : BumpOk p { s with wal := s.wal ++ [.checkpoint sd redo n gxids] } := by
      cases hsdv : sd with
      | false => exact h.bump_ok.concat fun _ => rfl
      | true => simp [h.bump_idle (hsd.mp hsdv)]
    have h1 := h.concat _ hfits hx hbump
    have hcov1 := hcov.concat _ hx
    refine h1.withCkpt _ ⟨⟨hredo,by simp⟩,hfit,hcov1⟩ ?_
    have hb := h1.bump_ok
    unfold BumpOk CkptPinned at hb ⊢
    simpa only [hc] using hb
  | idle | begun sd redo | inserted sd redo n gs k => simp [hc] at hs

theorem ckptComplete_inv (h : LogInv p s) (hs : s.ckptComplete=some t) : LogInv p t := by
  unfold ckptComplete at hs
  cases hc : s.ckpt with
  | inserted sd redo n gs k =>
    simp only [hc] at hs
    split_ifs at hs with hk
    cases hs
    obtain ⟨hredo,hfit,hcov⟩ : (redo≤k ∧ k<s.wal.length) ∧ n+p<lastGxid ∧
        Covers s.wal s.flushed s.bound redo n := by
      simpa only [CkptOk,hc] using h.ckpt_ok
    refine { h with redo_le := hredo.1.trans hk.1.le, control_fits := hfit, control_covers := hcov,
                    ckpt_ok := trivial, bump_ok := ?_ }
    have hb := h.bump_ok
    unfold BumpOk CkptPinned at hb ⊢
    cases hbump : s.bump with
    | idle => trivial
    | locked | limited l => simpa only [hbump] using hb
    | logged l k' =>
      simp only [hbump,hc] at hb ⊢
      obtain ⟨hn,hl,hr,-,hrec,hckpt⟩ := hb
      exact ⟨hn,hl,hr,hckpt,hrec,trivial⟩
  | idle | begun sd redo | sampled sd redo n => simp [hc] at hs

theorem insert_inv (r : Record) (h : LogInv p s) (hs : s.insert r=some t) : LogInv p t := by
  have key : ∀ x, Neutral x → RecordFits p x →
      (if s.phase=.shutdown then none else some { s with wal := s.wal ++ [x] })=some t →
      LogInv p t := by
    intro x hx hfit heq
    split_ifs at heq with hph
    cases heq
    exact h.concat x hfit (hx.covers _) (h.bump_ok.concat hx)
  cases r with
  | nextGxid g | checkpoint sd redo n gs => simp [Log.insert] at hs
  | distributedCommit g => exact key (.distributedCommit g) (fun _ => rfl) trivial hs
  | distributedForget g => exact key (.distributedForget g) (fun _ => rfl) trivial hs
  | latestCompletedGxid g => exact key (.latestCompletedGxid g) (fun _ => rfl) trivial hs
  | other => exact key (.other) (fun _ => rfl) trivial hs

theorem flush_inv (upto : Nat) (h : LogInv p s) (hs : s.flush upto=some t) : LogInv p t := by
  unfold flush at hs
  split_ifs at hs with hc
  cases hs
  refine { h with flushed_le := hc.2, redo_le := h.redo_le.trans hc.1,
                  control_covers := h.control_covers.mono hc.1 (le_refl _),
                  recent_covers := fun lo hlo => (h.recent_covers lo hlo).mono hc.1 (le_refl _),
                  ckpt_ok := ?_ }
  have hck := h.ckpt_ok
  unfold CkptOk at hck ⊢
  cases hckpt : s.ckpt with
  | idle => trivial
  | begun sd redo => simpa only [hckpt] using hck
  | sampled sd redo n =>
    simp only [hckpt] at hck ⊢
    exact ⟨hck.1,hck.2.1,hck.2.2.1,hck.2.2.2.1,hck.2.2.2.2.mono hc.1 (le_refl _)⟩
  | inserted sd redo n gs k =>
    simp only [hckpt] at hck ⊢
    exact ⟨hck.1,hck.2.1,hck.2.2.mono hc.1 (le_refl _)⟩

theorem openForBusiness_inv (h : LogInv p s) (hs : s.openForBusiness=some t) : LogInv p t := by
  unfold openForBusiness at hs
  split_ifs at hs with hc
  cases hs
  have hbd : bound { s with phase := .normal }=s.bound := by simp [hc.1]
  refine { h with startup_count := fun hst => (by cases hst), control_covers := ?_,
                  recent_covers := ?_, ckpt_ok := ?_, bump_ok := ?_ }
  · rw [hbd]; exact h.control_covers
  · rw [hbd]; exact h.recent_covers
  · simp [hc.2]
  · simp [h.bump_idle (by rw [hc.1]; decide)]

theorem stop_inv (h : LogInv p s) (hs : s.stop=some t) : LogInv p t := by
  unfold stop at hs
  split_ifs at hs with hc
  cases hs
  have hbd : bound { s with phase := .shutdown }=s.nextGxid := by simp
  have hle : s.nextGxid ≤ s.bound := by simp [hc.1]
  refine { h with startup_count := fun hst => (by cases hst), control_covers := ?_,
                  recent_covers := ?_, ckpt_ok := ?_, bump_ok := ?_ }
  · rw [hbd]; exact h.control_covers.mono (le_refl _) hle
  · rw [hbd]; exact fun lo hlo => (h.recent_covers lo hlo).self_mono hle
  · simp [hc.2.1]
  · simp [hc.2.2]

theorem bound_le_restart (h : LogInv p s) : s.bound ≤ s.restart.nextGxid :=
  h.control_covers s.flushed (le_refl _)

theorem nextGxid_le_bound (s : Log) : s.nextGxid ≤ s.bound := by
  unfold bound
  split_ifs <;> omega

/-- After a crash gxids start behind every one handed out before. -/
theorem restart_inv (h : LogInv p s) : LogInv p s.restart := by
  have hbd : s.restart.bound=s.restart.nextGxid := by simp [restart]
  have hlen : (s.wal.take s.flushed).length=s.flushed := by
    rw [length_take,min_eq_left h.flushed_le]
  have hfits : ∀ r∈s.wal.take s.flushed, RecordFits p r :=
    fun r hr => h.wal_fits r (mem_of_mem_take hr)
  constructor
  case assigned_lt =>
    intro g hg
    exact (h.assigned_lt g hg).trans_le ((nextGxid_le_bound s).trans (bound_le_restart h))
  case assigned_sorted => exact h.assigned_sorted
  case next_pos => exact h.next_pos.trans_le ((nextGxid_le_bound s).trans (bound_le_restart h))
  case room =>
    exact foldl_redoNextGxid_fits _ _ (fun r hr => hfits r (mem_of_mem_drop hr)) h.control_fits
  case flushed_le => exact hlen.ge
  case start_le => exact le_refl _
  case redo_le => exact h.redo_le
  case startup_count => exact fun _ => rfl
  case wal_fits => exact hfits
  case control_fits => exact h.control_fits
  case control_covers =>
    intro hi hf
    rw [hbd]
    exact (replay_take _ _ _ _ _ hf _).ge
  case recent_covers =>
    intro lo hlo hi _
    exact (replay_of_length_le _ _ _ _ hlo _).ge
  case ckpt_ok | bump_ok => trivial

theorem step_logInv (hp : p<2^31) (s : Log) (a : LogAction) (t : Log) (h : LogInv p s)
    (hs : s.step p a=some t) : LogInv p t := by
  cases a with
  | activate => exact activate_inv h hs
  | bumpAcquire => exact bumpAcquire_inv h hs
  | bumpLimit => exact bumpLimit_inv h hp hs
  | bumpInsert => exact bumpInsert_inv h hs
  | bumpFinish => exact bumpFinish_inv h hs
  | ckptBegin => exact ckptBegin_inv h hs
  | ckptSample => exact ckptSample_inv h hs
  | ckptInsert gxids => exact ckptInsert_inv gxids h hs
  | ckptComplete => exact ckptComplete_inv h hs
  | insert r => exact insert_inv r h hs
  | flush upto => exact flush_inv upto h hs
  | openForBusiness => exact openForBusiness_inv h hs
  | stop => exact stop_inv h hs
  | restart =>
    cases hs
    exact restart_inv h

theorem run_logInv (hp : p<2^31) (h : run (step p) .bootstrap as=some s) : LogInv p s :=
  run_invariant (step_logInv hp) (logInv_bootstrap hp) h

/-- Over the whole history of a cluster, crashes and restarts included, the gxids handed out
increase strictly in the order of their assignment. -/
theorem gxids_strictly_increasing (prefetch : Nat) (hp : 512≤prefetch ∧ prefetch≤2^31-1)
    (as : List LogAction) (s : Log) (h : run (step prefetch) .bootstrap as=some s) :
    s.assigned.Pairwise (·<·) ∧ s.assigned.Nodup := by
  have hinv := run_logInv (by omega) h
  exact ⟨hinv.assigned_sorted,hinv.assigned_sorted.imp fun hlt => hlt.ne⟩

def crashHistory : List LogAction :=
  [.openForBusiness,.bumpAcquire,.bumpLimit,.bumpInsert,.flush 2,.bumpFinish,.activate,
    .activate,.ckptBegin,.restart,.openForBusiness,.bumpAcquire,.bumpLimit,.bumpInsert,
    .flush 3,.bumpFinish,.activate]

theorem gxids_strictly_increasing_after_crash :
    ∃ s, run (step 512) .bootstrap crashHistory=some s ∧ s.assigned=[1,2,513] ∧
      s.assigned.Pairwise (·<·) ∧ s.assigned.Nodup :=
  ⟨(run (step 512) .bootstrap crashHistory).get (by decide +kernel),by decide +kernel,
    by decide +kernel,gxids_strictly_increasing 512 (by decide) crashHistory _ (by decide +kernel)⟩

end WarehousePG.Dtm
