import OpsKnowledge.Lib.Pool
import OpsKnowledge.Workflow.State

/-!
# Iterations

An iteration node runs its sub-graph once for each item and harvests a result from each run,
one run after the other or several at a time under a semaphore. What the compiled sub-graph
makes of an initial state is given; it does not depend on the other runs, which have states of
their own.
-/

namespace OpsKnowledge.Workflow

open OpsKnowledge.Lib

section Iteration

variable (invoke : WorkflowState → Except Exn Channels) (nodeId : String) (field : Option String)
  (items : List Json)

/-- What the `output_selector` finds in a final state. -/
def harvest (final : Channels) : Json :=
  let out := (final.outputs.get? nodeId).getD .empty
  match field with
  | none => .obj out.entries
  | some field => (out.get? field).getD .null

def itemInput (i : Nat) : Bucket :=
  Dict.ofList [("item", (items[i]?).getD .null), ("index", .num i)]

/-- `_run_one`, of the item at a place. -/
def runOne (i : Nat) : Except Exn Json :=
  (invoke (initialState (itemInput items i) .empty)).map (harvest nodeId field)

/-- The results without `parallel`. -/
def runInOrder : Except Exn (List Json) := Pool.sequential (runOne invoke nodeId field items) items.length

/-- `asyncio.Semaphore(max_parallel)` -/
def semaphore (maxParallel : Int) : Except Exn Nat :=
  if maxParallel < 0 then .error (.valueError "Semaphore initial value must be >= 0")
  else .ok maxParallel.toNat

/-- The results with `parallel`, after some steps of the runs. -/
def runTogether (limit : Nat) : List PoolAction → Option (Pool Exn Json) :=
  runSteps (Pool.step limit (runOne invoke nodeId field items)) (Pool.init items.length)

end Iteration

variable {invoke : WorkflowState → Except Exn Channels} {nodeId : String} {field : Option String}
  {items : List Json} {maxParallel : Int} {limit : Nat} {as : List PoolAction} {p : Pool Exn Json}

/-- With no permit nothing ever starts. -/
theorem runTogether_zero (hrun : runTogether invoke nodeId field items 0 as = some p) :
    p = Pool.init items.length := by
  cases as with
  | nil =>
      cases hrun
      rfl
  | cons a as =>
      obtain ⟨p', hstep, -⟩ := Option.bind_eq_some_iff.1 hrun
      have hbounded := ((Pool.sound_init items.length).step hstep).bounded
      rcases Pool.step_cases hstep with ⟨i, -, hlimit, -⟩ | ⟨i, hjob, -, -⟩
      · cases hlimit
      · cases List.eq_of_mem_replicate (List.mem_of_getElem? hjob)

/-- However the runs of the items are interleaved: no more of them than the limit are under way, their steps
come to an end, and what is gathered is what the runs give one after the other, or the error of one of them.
Nothing is gathered in the end only if there are items and no permit. -/
theorem iteration_gathers (hlimit : semaphore maxParallel = .ok limit)
    (hrun : runTogether invoke nodeId field items limit as = some p) :
    (p.running : Int) ≤ maxParallel ∧ as.length ≤ 2 * items.length ∧
      (∀ r, p.gathered = some r →
        (∀ results, r = .ok results ↔ runInOrder invoke nodeId field items = .ok results) ∧
        ∀ e, r = .error e → ∃ i < items.length, runOne invoke nodeId field items i = .error e) ∧
      ((∀ a, p.step limit (runOne invoke nodeId field items) a = none) →
        (p.gathered = none ↔ maxParallel = 0 ∧ items ≠ [])) := by
  have hvalue : (limit : Int) = maxParallel := by
    unfold semaphore at hlimit
    split at hlimit
    · cases hlimit
    · cases hlimit
      omega
  obtain ⟨hsound, hlength⟩ := Pool.sound_of_run hrun
  refine ⟨?_, ?_, fun r hr => hsound.gathered_spec hr, fun hstuck => ⟨fun hnone => ?_, fun hboth => ?_⟩⟩
  · have hbounded := hsound.bounded
    omega
  · omega
  · have hzero : limit = 0 := by
      by_contra hne
      exact hsound.settled (Pool.pending_of_stuck (Nat.one_le_iff_ne_zero.2 hne) hstuck) hnone
    subst hzero
    refine ⟨hvalue.symm, ?_⟩
    rintro rfl
    rw [runTogether_zero hrun] at hnone
    cases hnone
  · have hzero : limit = 0 := by omega
    subst hzero
    rw [runTogether_zero hrun, Pool.init, if_neg]
    exact fun hlen => hboth.2 (List.length_eq_zero_iff.1 hlen)

/-- A sub-graph of one node that hands its item on. -/
def echo (st : WorkflowState) : Except Exn Channels :=
  .ok { inputs := .empty
        outputs := Dict.ofList [("n", Dict.ofList [("v", (st.triggerInput.get? "item").getD .null)])]
        branches := .empty }

/-- Three items, two at a time, which end in another order than they have. -/
theorem iteration_gathers_echo :
    runInOrder echo "n" (some "v") [.str "a", .str "b", .str "c"] = .ok [.str "a", .str "b", .str "c"] := by
  have hlimit : semaphore 2 = .ok 2 := rfl
  obtain ⟨p, hrun, hgathered⟩ : ∃ p, runTogether echo "n" (some "v") [.str "a", .str "b", .str "c"] 2
      [.start 0, .start 1, .finish 1, .start 2, .finish 2, .finish 0] = some p ∧
      p.gathered = some (.ok [.str "a", .str "b", .str "c"]) := ⟨_, rfl, rfl⟩
  have hspec := (iteration_gathers hlimit hrun).2.2.1 _ hgathered
  exact (hspec.1 _).1 rfl

end OpsKnowledge.Workflow
