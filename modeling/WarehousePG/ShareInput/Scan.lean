import WarehousePG.Framework.Transition
import WarehousePG.Framework.Tally

namespace WarehousePG.ShareInput

/-- What a ShareInputScan node of a slice has done. It holds a reference to the shared state from
its initialization until it is squelched, in a consumer slice, or ended. -/
inductive Node where
  | uninit
  | fresh
  | reading
  | squelched
  | ended
deriving DecidableEq

def Node.hasRef : Node → Bool
  | .fresh => true
  | .reading => true
  | _ => false

/-- A slice initializes all its nodes, executes the plan, and ends all its nodes. -/
inductive Phase where
  | starting
  | running
  | ending
deriving DecidableEq

/-- Where the process of a slice is in the code for its node `k`. -/
inductive Pc where
  | idle
  | materialize (k : Nat)
  | notifyReady (k : Nat)
  | broadcastReady (k : Nat)
  | waitReady (k : Nat) (prepared : Bool)
  | sleepReady (k : Nat)
  | prepareDone (k : Nat)
  | waitDone (k : Nat)
  | sleepDone (k : Nat)
  | notifyDone (k : Nat) (squelching : Bool)
  | broadcastDone (k : Nat) (squelching : Bool)
  | release (k : Nat) (squelching : Bool)
deriving DecidableEq

structure Slice where
  numNodes : Nat
  nodes : Nat → Node := fun _ => .uninit
  phase : Phase := .starting
  pc : Pc := .idle
  ready : Bool := false
  closed : Bool := false
  ndone : Nat := 0
  nsharers : Nat := 0

/-- The `shareinput_Xslice_state` entry, with the processes on its condition variable. -/
structure XsliceState where
  refcount : Nat := 0
  ready : Bool := false
  ndone : Nat := 0
  waiters : List Nat := []
deriving DecidableEq

structure View where
  slice : Slice
  entry : Option XsliceState
  frozen : Bool

def getShareinputReference (entry : Option XsliceState) : XsliceState :=
  let state := entry.getD {}
  { state with refcount := state.refcount+1 }

def releaseShareinputReference (state : XsliceState) (readerSquelching : Bool) :
    Option XsliceState :=
  let refcount := state.refcount-1
  if readerSquelching=false ∧ refcount=0 then none else some { state with refcount := refcount }

namespace Slice

def setNode (c : Slice) (k : Nat) (x : Node) : Slice :=
  { c with nodes := Function.update c.nodes k x }

def setReady (c : Slice) (k : Nat) : Slice :=
  { c.setNode k .reading with
    ready := true
    pc := if c.phase=.ending then .prepareDone k else .idle }

/-- `init_tuplestore_state`, up to the first operation that others see. -/
def initTuplestoreState (producer : Bool) (c : Slice) (k : Nat) : Slice :=
  if c.ready then c.setNode k .reading
  else if producer then { c with pc := .materialize k }
  else { c with pc := .waitReady k false }

def execShareInputScan (producer : Bool) (c : Slice) (k : Nat) : Slice :=
  if c.nodes k=.reading then c else c.initTuplestoreState producer k

def execSquelchShareInputScan (producer : Bool) (c : Slice) (k : Nat) : Slice :=
  if producer then
    if c.ready then c else c.initTuplestoreState producer k
  else
    { c with
      ndone := c.ndone+1
      pc := if c.ndone+1=c.nsharers then .notifyDone k true else .release k true }

def execEndShareInputScan (producer : Bool) (c : Slice) (k : Nat) : Slice :=
  if (c.nodes k).hasRef then
    if producer then
      if c.ready then { c with pc := .prepareDone k } else c.initTuplestoreState producer k
    else { c with pc := if c.closed then .release k false else .notifyDone k false }
  else c.setNode k .ended

end Slice

namespace View

def execInitShareInputScan (producer : Bool) (v : View) (k : Nat) : View :=
  { v with
    slice := { v.slice.setNode k .fresh with
      nsharers := if producer then v.slice.nsharers else v.slice.nsharers+1 }
    entry := some (getShareinputReference v.entry) }

/-- The next operation on the shared state of process `i`, with `nconsumers` consumer slices. A
sleeping process goes on only when a broadcast has taken it from the list of waiters. -/
def advance (nconsumers i : Nat) (v : View) : Option View :=
  match v.slice.pc with
  | .idle => none
  | .materialize k => some { v with slice := { v.slice with pc := .notifyReady k }, frozen := true }
  | .notifyReady k => v.entry.map fun state =>
    { v with
      slice := { v.slice with pc := .broadcastReady k }, entry := some { state with ready := true } }
  | .broadcastReady k => v.entry.map fun state =>
    { v with slice := v.slice.setReady k, entry := some { state with waiters := [] } }
  | .waitReady k prepared => v.entry.map fun state =>
    if state.ready then
      { v with
        slice := v.slice.setReady k
        entry := some { state with waiters := state.waiters.filter (· ≠ i) } }
    else if prepared then { v with slice := { v.slice with pc := .sleepReady k } }
    else
      { v with
        slice := { v.slice with pc := .waitReady k true }
        entry := some { state with waiters := i::state.waiters } }
  | .sleepReady k => v.entry.bind fun state =>
    if i∈state.waiters then none
    else some { v with
      slice := { v.slice with pc := .waitReady k true }
      entry := some { state with waiters := i::state.waiters } }
  | .prepareDone k => v.entry.bind fun state =>
    if state.ready then some { v with
      slice := { v.slice with pc := .waitDone k }
      entry := some { state with waiters := i::state.waiters } }
    else none
  | .waitDone k => v.entry.map fun state =>
    if state.ndone<nconsumers then { v with slice := { v.slice with pc := .sleepDone k } }
    else
      { v with
        slice := { v.slice with pc := .release k false }
        entry := some { state with waiters := state.waiters.filter (· ≠ i) } }
  | .sleepDone k => v.entry.bind fun state =>
    if i∈state.waiters then none
    else some { v with
      slice := { v.slice with pc := .waitDone k }
      entry := some { state with waiters := i::state.waiters } }
  | .notifyDone k squelching => v.entry.map fun state =>
    { v with
      slice := { v.slice with
        closed := true
        pc := if state.ndone+1≥nconsumers then .broadcastDone k squelching
          else .release k squelching }
      entry := some { state with ndone := state.ndone+1 } }
  | .broadcastDone k squelching => v.entry.map fun state =>
    { v with
      slice := { v.slice with pc := .release k squelching }
      entry := some { state with waiters := [] } }
  | .release k squelching => v.entry.map fun state =>
    { v with
      slice := { v.slice.setNode k (if squelching then .squelched else .ended) with pc := .idle }
      entry := releaseShareinputReference state squelching }

end View

inductive Act where
  | initNode (k : Nat)
  | run
  | execNode (k : Nat)
  | squelchNode (k : Nat)
  | finish
  | endNode (k : Nat)
  | advance
deriving DecidableEq

/-- A consumer slice ends its nodes only when each of them has read or has been squelched. -/
def Slice.CanFinish (producer : Bool) (c : Slice) : Prop :=
  producer=true ∨ ∀ k<c.numNodes, c.nodes k=.reading ∨ c.nodes k=.squelched

instance (producer : Bool) (c : Slice) : Decidable (c.CanFinish producer) :=
  inferInstanceAs (Decidable (_ ∨ _))

/-- One step of the process of slice `i`; slice zero is the producer. -/
def View.act (nconsumers i : Nat) (v : View) : Act → Option View
  | .initNode k =>
    if v.slice.phase=.starting ∧ k<v.slice.numNodes ∧ v.slice.nodes k=.uninit then
      some (v.execInitShareInputScan (i=0) k)
    else none
  | .run =>
    if v.slice.phase=.starting ∧ ∀ k<v.slice.numNodes, v.slice.nodes k≠.uninit then
      some { v with slice := { v.slice with phase := .running } }
    else none
  | .execNode k =>
    if v.slice.phase=.running ∧ v.slice.pc=.idle ∧ k<v.slice.numNodes ∧
        (v.slice.nodes k).hasRef then
      some { v with slice := v.slice.execShareInputScan (i=0) k }
    else none
  | .squelchNode k =>
    if v.slice.phase=.running ∧ v.slice.pc=.idle ∧ k<v.slice.numNodes ∧
        (v.slice.nodes k).hasRef then
      some { v with slice := v.slice.execSquelchShareInputScan (i=0) k }
    else none
  | .finish =>
    if v.slice.phase=.running ∧ v.slice.pc=.idle ∧ v.slice.CanFinish (i=0) then
      some { v with slice := { v.slice with phase := .ending } }
    else none
  | .endNode k =>
    if v.slice.phase=.ending ∧ v.slice.pc=.idle ∧ k<v.slice.numNodes ∧
        v.slice.nodes k≠.ended then
      some { v with slice := v.slice.execEndShareInputScan (i=0) k }
    else none
  | .advance => v.advance nconsumers i

structure State where
  slices : Nat → Slice
  entry : Option XsliceState := none
  frozen : Bool := false

namespace State

def view (s : State) (i : Nat) : View := ⟨s.slices i,s.entry,s.frozen⟩

def store (s : State) (i : Nat) (v : View) : State :=
  { slices := Function.update s.slices i v.slice, entry := v.entry, frozen := v.frozen }

def start (numNodes : Nat → Nat) : State := { slices := fun i => { numNodes := numNodes i } }

def step (nconsumers : Nat) (s : State) (a : Nat × Act) : Option State :=
  if a.1≤nconsumers then ((s.view a.1).act nconsumers a.1 a.2).map (s.store a.1) else none

end State

open Framework

def Pc.squelching : Pc → Bool
  | .notifyDone _ sq => sq
  | .broadcastDone _ sq => sq
  | .release _ sq => sq
  | _ => false

namespace Slice

def refs (c : Slice) : Nat := tally c.numNodes c.nodes Node.hasRef

def squelchedNodes (c : Slice) : Nat := tally c.numNodes c.nodes fun x => x=.squelched

def Finished (c : Slice) : Prop := ∀ k<c.numNodes, c.nodes k=.ended

def Released (c : Slice) : Prop := ∀ k<c.numNodes, c.nodes k=.squelched ∨ c.nodes k=.ended

/-- No node of the slice reads any more: the plan is executed, or every node is squelched or being
squelched. -/
def Stopped (c : Slice) : Prop :=
  c.phase=.ending ∨ c.phase=.running ∧ ∀ k<c.numNodes, c.nodes k=.squelched ∨
    c.pc=.broadcastDone k true ∨ c.pc=.release k true

/-- The process has ended a node, or is past the wait for the consumers. -/
def Passed (c : Slice) : Prop := ∃ k<c.numNodes, c.nodes k=.ended ∨ c.pc=.release k false

end Slice

def Phase.consumerNode : Phase → Node → Prop
  | .starting, x => x=.uninit ∨ x=.fresh
  | .running, x => x=.fresh ∨ x=.reading ∨ x=.squelched
  | .ending, x => x=.reading ∨ x=.squelched ∨ x=.ended

def Pc.ConsumerOk (c : Slice) : Pc → Prop
  | .idle => True
  | .waitReady k _ => c.phase=.running ∧ k<c.numNodes ∧ c.nodes k=.fresh
  | .sleepReady k => c.phase=.running ∧ k<c.numNodes ∧ c.nodes k=.fresh
  | .notifyDone k sq => c.phase=(if sq then .running else .ending) ∧ k<c.numNodes ∧
      (c.nodes k).hasRef ∧ c.closed=false ∧ (sq=true → c.ndone=c.numNodes)
  | .broadcastDone k sq => c.phase=(if sq then .running else .ending) ∧ k<c.numNodes ∧
      (c.nodes k).hasRef ∧ (sq=false → c.closed=true)
  | .release k sq => c.phase=(if sq then .running else .ending) ∧ k<c.numNodes ∧
      (c.nodes k).hasRef ∧ (sq=false → c.closed=true)
  | _ => False

/-- A consumer slice is closed when its last node is squelched or its first node ends. -/
structure ConsumerOk (c : Slice) : Prop where
  nonempty : 0<c.numNodes
  nodes : ∀ k<c.numNodes, c.phase.consumerNode (c.nodes k)
  pc : c.pc.ConsumerOk c
  sharers : c.nsharers=tally c.numNodes c.nodes fun x => x≠.uninit
  starting : c.phase=.starting → c.pc=.idle ∧ c.closed=false ∧ c.ndone=0
  done : c.phase=.running → c.ndone=c.squelchedNodes+c.pc.squelching.toNat
  running : c.phase=.running →
    (c.closed=true ↔ c.ndone=c.numNodes ∧ ∀ k, c.pc≠.notifyDone k true)
  ending : c.phase=.ending → c.closed=false → ∃ k<c.numNodes, c.nodes k=.reading
  reading : ∀ k<c.numNodes, c.nodes k=.reading → c.ready=true

def Phase.producerNode : Phase → Node → Prop
  | .starting, x => x=.uninit ∨ x=.fresh
  | .running, x => x=.fresh ∨ x=.reading
  | .ending, x => x=.fresh ∨ x=.reading ∨ x=.ended

def Pc.ProducerOk (c : Slice) : Pc → Prop
  | .idle => True
  | .materialize k => c.phase≠.starting ∧ k<c.numNodes ∧ (c.nodes k).hasRef ∧ c.ready=false
  | .notifyReady k => c.phase≠.starting ∧ k<c.numNodes ∧ (c.nodes k).hasRef ∧ c.ready=false
  | .broadcastReady k => c.phase≠.starting ∧ k<c.numNodes ∧ (c.nodes k).hasRef ∧ c.ready=false
  | .prepareDone k => c.phase=.ending ∧ k<c.numNodes ∧ (c.nodes k).hasRef ∧ c.ready=true
  | .waitDone k => c.phase=.ending ∧ k<c.numNodes ∧ (c.nodes k).hasRef ∧ c.ready=true
  | .sleepDone k => c.phase=.ending ∧ k<c.numNodes ∧ (c.nodes k).hasRef ∧ c.ready=true
  | .release k sq => sq=false ∧ c.phase=.ending ∧ k<c.numNodes ∧ (c.nodes k).hasRef ∧ c.ready=true
  | _ => False

structure ProducerOk (c : Slice) : Prop where
  nonempty : 0<c.numNodes
  nodes : ∀ k<c.numNodes, c.phase.producerNode (c.nodes k)
  pc : c.pc.ProducerOk c
  starting : c.phase=.starting → c.pc=.idle ∧ c.ready=false
  ended : ∀ k<c.numNodes, c.nodes k=.ended → c.ready=true
  closed : c.closed=false

namespace ConsumerOk

variable (h : ConsumerOk c)
include h

theorem nsharers_eq (hph : c.phase≠.starting) : c.nsharers=c.numNodes := by
  rw [h.sharers,tally_eq_length]
  intro k hk
  have hnode := h.nodes k hk
  cases hp : c.phase with
  | starting => exact absurd hp hph
  | running | ending =>
    rw [hp] at hnode
    rcases hnode with hx | hx | hx <;> simp [hx]

theorem squelching_node (hsq : c.pc.squelching=true) : ∃ k<c.numNodes, (c.nodes k).hasRef=true ∧
      (c.pc=.notifyDone k true ∨ c.pc=.broadcastDone k true ∨ c.pc=.release k true) := by
  have hpc := h.pc
  cases hp : c.pc with
  | notifyDone k sq =>
    rw [hp] at hpc hsq
    obtain rfl : sq=true := hsq
    exact ⟨k,hpc.2.1,hpc.2.2.1,.inl rfl⟩
  | broadcastDone k sq =>
    rw [hp] at hpc hsq
    obtain rfl : sq=true := hsq
    exact ⟨k,hpc.2.1,hpc.2.2.1,.inr (.inl rfl)⟩
  | release k sq =>
    rw [hp] at hpc hsq
    obtain rfl : sq=true := hsq
    exact ⟨k,hpc.2.1,hpc.2.2.1,.inr (.inr rfl)⟩
  | _ =>
    rw [hp] at hsq
    exact absurd hsq (by simp [Pc.squelching])

theorem stopped (hcl : c.closed=true) : c.Stopped := by
  cases hp : c.phase with
  | starting => exact absurd hcl (by simp [(h.starting hp).2.1])
  | ending => exact .inl hp
  | running =>
    refine .inr ⟨hp,?_⟩
    obtain ⟨hdone,hnot⟩ := (h.running hp).mp hcl
    have hcnt := h.done hp
    cases hsq : c.pc.squelching with
    | false =>
      have hall : c.squelchedNodes=c.numNodes := by
        rw [hsq] at hcnt
        simp at hcnt
        omega
      intro k hk
      exact .inl (of_decide_eq_true (tally_eq_length.mp hall k hk))
    | true =>
      obtain ⟨j,hj,href,hat⟩ := h.squelching_node hsq
      -- all other nodes are squelched, since with this one they are as many as the slice has
      have hupd := tally_update hj c.nodes Node.squelched fun x => decide (x=.squelched)
      have hnode : decide (c.nodes j=.squelched)=false := by
        cases hx : c.nodes j <;> simp_all [Node.hasRef]
      have hcnt : c.numNodes=c.squelchedNodes+1 := by
        rw [hsq] at hcnt
        simp at hcnt
        omega
      rw [hnode] at hupd
      have hall : tally c.numNodes (Function.update c.nodes j .squelched)
          (fun x => decide (x=.squelched))=c.numNodes := by
        simp only [Slice.squelchedNodes] at hcnt
        simp at hupd
        omega
      intro k hk
      by_cases hkj : k=j
      · rw [hkj]
        right
        exact hat.resolve_left (hnot j)
      · have := tally_eq_length.mp hall k hk
        rw [Function.update_of_ne hkj] at this
        exact .inl (of_decide_eq_true this)

/-- A slice that holds no reference has been counted. -/
theorem closed_of_released (hrls : c.Released) : c.closed=true := by
  cases hp : c.phase with
  | starting =>
    have hnode := h.nodes 0 h.nonempty
    have hrel := hrls 0 h.nonempty
    rw [hp] at hnode
    rcases hnode with hx | hx <;> simp [hx] at hrel
  | running =>
    apply (h.running hp).mpr
    have hall : c.squelchedNodes=c.numNodes := by
      rw [Slice.squelchedNodes,tally_eq_length]
      intro k hk
      have hnode := h.nodes k hk
      rw [hp] at hnode
      rcases hnode with hx | hx | hx <;> have hrel := hrls k hk <;> simp_all
    have hidle : c.pc.squelching=false := by
      by_contra hsq
      obtain ⟨k,hk,href,-⟩ := h.squelching_node (by simpa using hsq)
      rcases hrls k hk with hx | hx <;> simp [hx,Node.hasRef] at href
    refine ⟨by simp [h.done hp,hall,hidle],?_⟩
    intro k hk
    simp [hk,Pc.squelching] at hidle
  | ending =>
    by_contra hopen
    obtain ⟨k,hk,hrdg⟩ := h.ending hp (by simpa using hopen)
    have hrel := hrls k hk
    simp [hrdg] at hrel

end ConsumerOk

end WarehousePG.ShareInput
