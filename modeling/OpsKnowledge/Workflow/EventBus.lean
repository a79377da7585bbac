import OpsKnowledge.Lib.Transition
import OpsKnowledge.Workflow.State

/-!
# The event bus of one execution

`EventBus` of `app/workflow/events.py` as a transition system. A non-critical event is
offered to all subscribers in one step; a critical one is put to them one by one, and
between two puts anything may happen, so it becomes an entry of `inFlight` whose waits
end one at a time, with a put or with a timeout. `got`, `joinedAfterEnd` and
`published` are not in the source: they record what a subscriber has taken from its
queue, whether `workflow_end` had been published when it joined, and all publications.
-/

namespace OpsKnowledge.Workflow

open OpsKnowledge.Lib

inductive EventType where
  | workflowStart | workflowEnd
  | nodeStart | nodeOutput | nodeError | nodeEnd
  | streamChunk | heartbeat
  | waitingInput
  deriving DecidableEq, Repr

structure Event where
  type : EventType
  executionId : String
  nodeId : Option String := none
  data : Bucket := .empty

/-- `_CRITICAL_EVENT_TYPES`. -/
def EventType.critical : EventType → Bool
  | .workflowStart | .workflowEnd | .nodeError => true
  | _ => false

/-- `None` in the queue is the end-of-stream sentinel. -/
structure Subscriber where
  queue : List (Option Event)
  got : List (Option Event) := []
  joinedAfterEnd : Bool

structure EventBus where
  queueSize : Nat
  historyMax : Nat
  subs : List Subscriber
  closed : Bool
  history : List Event
  inFlight : List (Event × List Nat)
  published : List Event

/-- `asyncio.Queue.full`: a queue with bound zero is unbounded. -/
def isFull (queueSize : Nat) (queue : List (Option Event)) : Bool :=
  0 < queueSize ∧ queueSize ≤ queue.length

namespace Subscriber

def put (sub : Subscriber) (x : Option Event) : Subscriber := { sub with queue := sub.queue ++ [x] }

/-- `put_nowait`, with `QueueFull` swallowed. -/
def offer (queueSize : Nat) (x : Option Event) (sub : Subscriber) : Subscriber :=
  if isFull queueSize sub.queue then sub else sub.put x

/-- Everything the subscriber has got or still finds in its queue. -/
def stream (sub : Subscriber) : List (Option Event) := sub.got ++ sub.queue

end Subscriber

namespace EventBus

def new (queueSize historyMax : Nat) : EventBus :=
  { queueSize := queueSize
    historyMax := historyMax
    subs := []
    closed := false
    history := []
    inFlight := []
    published := [] }

/-- The history that fits into a fresh queue. -/
def replay (bus : EventBus) : List Event :=
  if bus.queueSize = 0 then bus.history else bus.history.take bus.queueSize

def endPublished (bus : EventBus) : Bool := bus.published.any fun ev => ev.type = .workflowEnd

/-- The history is replayed; if the bus has already closed, the sentinel follows. -/
def newSubscriber (bus : EventBus) : Subscriber :=
  let sub : Subscriber := { queue := bus.replay.map some, joinedAfterEnd := bus.endPublished }
  if bus.closed then sub.offer bus.queueSize none else sub

def subscribe (bus : EventBus) : EventBus := { bus with subs := bus.subs ++ [bus.newSubscriber] }

/-- `self._history.append(ev)` and the trimming after it. -/
def record (bus : EventBus) (ev : Event) : EventBus :=
  let history := bus.history ++ [ev]
  { bus with
    history := history.drop (history.length - bus.historyMax)
    published := bus.published ++ [ev] }

def publish (bus : EventBus) (ev : Event) : EventBus :=
  let bus := bus.record ev
  if bus.closed then bus
  else if ev.type.critical then
    { bus with inFlight := bus.inFlight ++ [(ev, List.range bus.subs.length)] }
  else
    { bus with subs := bus.subs.map (Subscriber.offer bus.queueSize (some ev)) }

/-- The `i`-th waiting `q.put` succeeds; it waits for as long as the queue is full. -/
def putWaiting (bus : EventBus) (i : Nat) : Option EventBus :=
  match bus.inFlight[i]? with
  | some (ev, s :: rest) =>
      match bus.subs[s]? with
      | some sub =>
          if isFull bus.queueSize sub.queue then none
          else
            some { bus with
              subs := bus.subs.set s (sub.put (some ev))
              inFlight := bus.inFlight.set i (ev, rest) }
      | none => none
  | _ => none

/-- The `i`-th waiting `q.put` times out: the event is dropped for this subscriber. -/
def timeoutWaiting (bus : EventBus) (i : Nat) : Option EventBus :=
  match bus.inFlight[i]? with
  | some (ev, _ :: rest) => some { bus with inFlight := bus.inFlight.set i (ev, rest) }
  | _ => none

/-- `await q.get()` of subscriber `s`, which waits for as long as the queue is empty. -/
def get (bus : EventBus) (s : Nat) : Option EventBus :=
  match bus.subs[s]? with
  | some sub =>
      match sub.queue with
      | x :: rest =>
          some { bus with subs := bus.subs.set s { sub with queue := rest, got := sub.got ++ [x] } }
      | [] => none
  | none => none

def close (bus : EventBus) : EventBus :=
  { bus with closed := true, subs := bus.subs.map (Subscriber.offer bus.queueSize none) }

end EventBus

inductive BusOp where
  | subscribe
  | publish (ev : Event)
  | putWaiting (i : Nat)
  | timeoutWaiting (i : Nat)
  | get (s : Nat)
  | close

def busStep (bus : EventBus) : BusOp → Option EventBus
  | .subscribe => some bus.subscribe
  | .publish ev => some (bus.publish ev)
  | .putWaiting i => bus.putWaiting i
  | .timeoutWaiting i => bus.timeoutWaiting i
  | .get s => bus.get s
  | .close => some bus.close

/-! ## End of stream -/

/-- `workflow_end` comes before any sentinel. -/
def EndFirst (xs : List (Option Event)) : Prop :=
  ∃ before ev after, xs = before ++ some ev :: after ∧ ev.type = .workflowEnd ∧ none ∉ before

/-- Once the bus is closed, every subscriber finds the sentinel after finitely many gets, and
one that joined after `workflow_end` finds that before the sentinel. -/
def Terminates (bus : EventBus) : Prop :=
  (bus.closed = true → ∀ sub ∈ bus.subs, ∃ n, none ∈ sub.got ++ sub.queue.take n) ∧
    ∀ sub ∈ bus.subs, sub.joinedAfterEnd = true → ∃ n, EndFirst (sub.got ++ sub.queue.take n)

/-- Closing finds room in each queue that lacks a sentinel; a new queue takes the history
up to `workflow_end` and, if the bus is closed, all of it and the sentinel. -/
def HasRoom (bus : EventBus) : BusOp → Prop
  | .close => ∀ sub ∈ bus.subs, none ∈ sub.stream ∨ isFull bus.queueSize sub.queue = false
  | .subscribe =>
      (bus.closed = true → isFull bus.queueSize (bus.replay.map some) = false) ∧
        (bus.endPublished = true → ∃ ev ∈ bus.replay, ev.type = .workflowEnd)
  | _ => True

theorem EndFirst.append {xs : List (Option Event)} (h : EndFirst xs) (ys : List (Option Event)) :
    EndFirst (xs ++ ys) := by
  rcases h with ⟨before, ev, after, rfl, hev, hbefore⟩
  exact ⟨before, ev, after ++ ys, by simp, hev, hbefore⟩

theorem exists_take_iff_stream {sub : Subscriber} {P : List (Option Event) → Prop}
    (hmono : ∀ xs ys, P xs → P (xs ++ ys)) :
    (∃ n, P (sub.got ++ sub.queue.take n)) ↔ P sub.stream := by
  constructor
  · intro h
    rcases h with ⟨n, hn⟩
    have hsplit : sub.stream = (sub.got ++ sub.queue.take n) ++ sub.queue.drop n := by
      rw [List.append_assoc, List.take_append_drop]
      rfl
    exact hsplit ▸ hmono _ _ hn
  · intro h
    exact ⟨sub.queue.length, by simpa [Subscriber.stream] using h⟩

theorem terminates_iff {bus : EventBus} :
    Terminates bus ↔ (bus.closed = true → ∀ sub ∈ bus.subs, none ∈ sub.stream) ∧
      ∀ sub ∈ bus.subs, sub.joinedAfterEnd = true → EndFirst sub.stream := by
  have hsentinel : ∀ sub : Subscriber, (∃ n, none ∈ sub.got ++ sub.queue.take n) ↔
      none ∈ sub.stream :=
    fun sub => exists_take_iff_stream fun _ _ h => List.mem_append_left _ h
  have hend : ∀ sub : Subscriber, (∃ n, EndFirst (sub.got ++ sub.queue.take n)) ↔
      EndFirst sub.stream :=
    fun sub => exists_take_iff_stream fun _ ys h => h.append ys
  simp only [Terminates, hsentinel, hend]

/-! ## Streams only grow -/

def Subscriber.Grows (sub sub' : Subscriber) : Prop :=
  sub'.joinedAfterEnd = sub.joinedAfterEnd ∧ sub.stream <+: sub'.stream

theorem Subscriber.Grows.refl (sub : Subscriber) : sub.Grows sub := ⟨rfl, List.prefix_rfl⟩

theorem Subscriber.stream_put (sub : Subscriber) (x : Option Event) :
    (sub.put x).stream = sub.stream ++ [x] := by
  simp [Subscriber.put, Subscriber.stream]

theorem Subscriber.grows_put (sub : Subscriber) (x : Option Event) : sub.Grows (sub.put x) :=
  ⟨rfl, by rw [Subscriber.stream_put]; exact List.prefix_append _ _⟩

theorem Subscriber.stream_offer (queueSize : Nat) (x : Option Event) (sub : Subscriber) :
    (sub.offer queueSize x).stream =
      if isFull queueSize sub.queue then sub.stream else sub.stream ++ [x] := by
  unfold Subscriber.offer
  split
  · rfl
  · exact sub.stream_put x

theorem Subscriber.grows_offer (queueSize : Nat) (x : Option Event) (sub : Subscriber) :
    sub.Grows (sub.offer queueSize x) := by
  unfold Subscriber.offer
  split
  · exact Subscriber.Grows.refl sub
  · exact sub.grows_put x

/-- Every subscriber after a step other than `subscribe` was there before it. -/
theorem grows_of_busStep {bus bus' : EventBus} {op : BusOp} (hop : op ≠ .subscribe)
    (h : busStep bus op = some bus') : ∀ sub' ∈ bus'.subs, ∃ sub ∈ bus.subs, sub.Grows sub' := by
  have hset : ∀ (s : Nat) (sub new : Subscriber), bus.subs[s]? = some sub → sub.Grows new →
      ∀ sub' ∈ bus.subs.set s new, ∃ sub ∈ bus.subs, sub.Grows sub' := by
    intro s sub new hs hgrow sub' hsub'
    rcases List.mem_or_eq_of_mem_set hsub' with hmem | rfl
    · exact ⟨sub', hmem, Subscriber.Grows.refl sub'⟩
    · exact ⟨sub, List.mem_of_getElem? hs, hgrow⟩
  have hmap : ∀ x, ∀ sub' ∈ bus.subs.map (Subscriber.offer bus.queueSize x),
      ∃ sub ∈ bus.subs, sub.Grows sub' := by
    intro x sub' hsub'
    rcases List.mem_map.1 hsub' with ⟨sub, hsub, rfl⟩
    exact ⟨sub, hsub, sub.grows_offer bus.queueSize x⟩
  have hsame : ∀ sub' ∈ bus.subs, ∃ sub ∈ bus.subs, sub.Grows sub' :=
    fun sub' hsub' => ⟨sub', hsub', Subscriber.Grows.refl sub'⟩
  cases op with
  | subscribe => exact absurd rfl hop
  | publish ev =>
      cases h
      unfold EventBus.publish
      by_cases hclosed : bus.closed = true
      · simpa [EventBus.record, hclosed] using hsame
      · by_cases hcrit : ev.type.critical = true
        · simpa [EventBus.record, hclosed, hcrit] using hsame
        · simpa [EventBus.record, hclosed, hcrit] using hmap (some ev)
  | putWaiting i =>
      simp only [busStep, EventBus.putWaiting] at h
      split at h
      · next ev s rest _ =>
          split at h
          · next sub hs =>
              split at h
              · cases h
              · cases h
                exact hset s sub _ hs (sub.grows_put (some ev))
          · cases h
      · cases h
  | timeoutWaiting i =>
      simp only [busStep, EventBus.timeoutWaiting] at h
      split at h
      · cases h
        exact hsame
      · cases h
  | get s =>
      simp only [busStep, EventBus.get] at h
      split at h
      · next sub hs =>
          split at h
          · next x rest hq =>
              cases h
              exact hset s sub _ hs ⟨rfl, by simp [Subscriber.stream, hq]⟩
          · cases h
      · cases h
  | close =>
      cases h
      exact hmap none

theorem closed_of_busStep {bus bus' : EventBus} {op : BusOp} (hop : op ≠ .close)
    (h : busStep bus op = some bus') : bus'.closed = bus.closed := by
  cases op with
  | subscribe => cases h; rfl
  | publish ev =>
      cases h
      unfold EventBus.publish
      by_cases hclosed : bus.closed = true
      · simp [EventBus.record, hclosed]
      · by_cases hcrit : ev.type.critical = true <;> simp [EventBus.record, hclosed, hcrit]
  | putWaiting i =>
      simp only [busStep, EventBus.putWaiting] at h
      split at h
      · split at h
        · split at h
          · cases h
          · cases h; rfl
        · cases h
      · cases h
  | timeoutWaiting i =>
      simp only [busStep, EventBus.timeoutWaiting] at h
      split at h
      · cases h; rfl
      · cases h
  | get s =>
      simp only [busStep, EventBus.get] at h
      split at h
      · split at h
        · cases h; rfl
        · cases h
      · cases h
  | close => exact absurd rfl hop

theorem terminates_of_grows {bus bus' : EventBus} (h : Terminates bus)
    (hgrow : ∀ sub' ∈ bus'.subs, ∃ sub ∈ bus.subs, sub.Grows sub')
    (hclosed : bus'.closed = bus.closed) : Terminates bus' := by
  rw [terminates_iff] at h ⊢
  constructor
  · intro hc sub' hsub'
    rcases hgrow sub' hsub' with ⟨sub, hsub, -, hpre⟩
    exact hpre.subset (h.1 (hclosed ▸ hc) sub hsub)
  · intro sub' hsub' hlate
    rcases hgrow sub' hsub' with ⟨sub, hsub, hj, hpre⟩
    rcases hpre with ⟨ys, hys⟩
    exact hys ▸ (h.2 sub hsub (hj ▸ hlate)).append ys

/-! ## The two steps that can lose the end -/

theorem endFirst_map_some_iff (evs : List Event) {ys : List (Option Event)}
    (hys : ∀ x ∈ ys, x = none) :
    EndFirst (evs.map some ++ ys) ↔ ∃ ev ∈ evs, ev.type = .workflowEnd := by
  constructor
  · intro h
    rcases h with ⟨before, ev, after, hxs, hev, -⟩
    have hmem : some ev ∈ evs.map some ++ ys := by simp [hxs]
    rcases List.mem_append.1 hmem with hmem | hmem
    · exact ⟨ev, by simpa using hmem, hev⟩
    · cases hys _ hmem
  · intro h
    rcases h with ⟨ev, hmem, hev⟩
    rcases List.append_of_mem hmem with ⟨before, after, rfl⟩
    exact ⟨before.map some, ev, after.map some ++ ys, by simp, hev, by simp⟩

theorem terminates_close_iff {bus : EventBus} (h : Terminates bus) :
    Terminates bus.close ↔ HasRoom bus .close := by
  have hlate := (terminates_iff.1 h).2
  rw [terminates_iff]
  have hsecond : ∀ sub ∈ bus.close.subs, sub.joinedAfterEnd = true → EndFirst sub.stream := by
    intro sub' hsub' hj
    rcases List.mem_map.1 hsub' with ⟨sub, hsub, rfl⟩
    have hgrow := sub.grows_offer bus.queueSize none
    rcases hgrow.2 with ⟨ys, hys⟩
    exact hys ▸ (hlate sub hsub (hgrow.1 ▸ hj)).append ys
  have hone : ∀ sub : Subscriber, none ∈ (sub.offer bus.queueSize none).stream ↔
      none ∈ sub.stream ∨ isFull bus.queueSize sub.queue = false := by
    intro sub
    rw [sub.stream_offer]
    cases isFull bus.queueSize sub.queue <;> simp
  rw [and_iff_left hsecond]
  simp only [EventBus.close, List.forall_mem_map, hone, HasRoom, forall_const]

theorem stream_newSubscriber (bus : EventBus) :
    bus.newSubscriber.stream = bus.replay.map some ++
      if bus.closed = true ∧ isFull bus.queueSize (bus.replay.map some) = false then [none]
      else [] := by
  unfold EventBus.newSubscriber
  cases hc : bus.closed with
  | false => simp [Subscriber.stream]
  | true =>
      simp only [if_true, Subscriber.stream_offer]
      cases hfull : isFull bus.queueSize (bus.replay.map some) <;> simp [Subscriber.stream]

theorem joinedAfterEnd_newSubscriber (bus : EventBus) :
    bus.newSubscriber.joinedAfterEnd = bus.endPublished := by
  unfold EventBus.newSubscriber
  cases bus.closed with
  | false => rfl
  | true => exact (Subscriber.grows_offer bus.queueSize none _).1

theorem terminates_subscribe_iff {bus : EventBus} (h : Terminates bus) :
    Terminates bus.subscribe ↔ HasRoom bus .subscribe := by
  have hold := terminates_iff.1 h
  have hsentinel : bus.closed = true → (none ∈ bus.newSubscriber.stream ↔
      isFull bus.queueSize (bus.replay.map some) = false) := by
    intro hc
    rw [stream_newSubscriber]
    cases isFull bus.queueSize (bus.replay.map some) <;> simp [hc]
  have hend : EndFirst bus.newSubscriber.stream ↔ ∃ ev ∈ bus.replay, ev.type = .workflowEnd := by
    rw [stream_newSubscriber]
    apply endFirst_map_some_iff
    intro x hx
    split at hx
    · exact List.mem_singleton.1 hx
    · cases hx
  rw [terminates_iff]
  simp only [EventBus.subscribe, List.forall_mem_append, List.forall_mem_singleton, HasRoom,
    joinedAfterEnd_newSubscriber, hend]
  constructor
  · intro hnew
    exact ⟨fun hc => (hsentinel hc).1 (hnew.1 hc).2, hnew.2.2⟩
  · intro hroom
    exact ⟨fun hc => ⟨hold.1 hc, (hsentinel hc).2 (hroom.1 hc)⟩, hold.2, hroom.2⟩

/-! ## Whole runs -/

theorem terminates_busStep_iff (bus : EventBus) (op : BusOp) (bus' : EventBus)
    (h : Terminates bus) (hstep : busStep bus op = some bus') : Terminates bus' ↔ HasRoom bus op := by
  have hother : op ≠ .subscribe → op ≠ .close → Terminates bus' := fun hsub hclose =>
    terminates_of_grows h (grows_of_busStep hsub hstep) (closed_of_busStep hclose hstep)
  cases op with
  | subscribe => cases hstep; exact terminates_subscribe_iff h
  | close => cases hstep; exact terminates_close_iff h
  | publish ev => exact iff_of_true (hother nofun nofun) trivial
  | putWaiting i => exact iff_of_true (hother nofun nofun) trivial
  | timeoutWaiting i => exact iff_of_true (hother nofun nofun) trivial
  | get s => exact iff_of_true (hother nofun nofun) trivial

/-- In every run of a bus, all states deliver the end to every subscriber iff every close
and every subscription of the run finds room for it. -/
theorem eventBus_terminates_iff (queueSize historyMax : Nat) (ops : List BusOp) :
    Visits busStep Terminates (.new queueSize historyMax) ops ↔
      EveryStep busStep HasRoom (.new queueSize historyMax) ops :=
  visits_iff_everyStep terminates_busStep_iff
    ⟨fun _ _ hsub => absurd hsub List.not_mem_nil, fun _ hsub => absurd hsub List.not_mem_nil⟩ ops

/-- A subscriber that does not read misses the sentinel when its queue is full at the close. -/
theorem fullQueue_loses_sentinel :
    ¬ ∀ (queueSize historyMax : Nat) (ops : List BusOp), 1 ≤ queueSize → 1 ≤ historyMax →
      Visits busStep Terminates (.new queueSize historyMax) ops := by
  intro h
  let chunk : Event := { type := .streamChunk, executionId := "e" }
  have hrun := (eventBus_terminates_iff 1 1 _).1
    (h 1 1 [.subscribe, .publish chunk, .close] (Nat.le_refl 1) (Nat.le_refl 1))
  have hroom := ((hrun _ rfl).2 _ rfl).2 _ rfl
  rcases hroom.1 _ (List.mem_singleton_self _) with hmem | hfull
  · have hchunk : none ∈ [some chunk] := hmem
    simp at hchunk
  · cases hfull

/-! ## Draining a queue -/

end OpsKnowledge.Workflow
