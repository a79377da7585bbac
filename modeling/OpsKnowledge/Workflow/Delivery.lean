import OpsKnowledge.Workflow.EventBus

/-!
# What a subscriber is given

A publisher that waits for one `publish` before it calls the next gives every subscriber the
events in the order of their publication, and none of them twice: whatever the bounds of the
history and of the queues, and whenever a subscriber joins, reads or is too slow.
-/

namespace OpsKnowledge.Workflow

open OpsKnowledge.Lib

/-- The events that a subscriber has got or still finds in its queue. -/
def Subscriber.events (sub : Subscriber) : List Event := sub.stream.filterMap id

/-- The subscribers that some `publish` has still to serve. -/
def EventBus.waiting (bus : EventBus) : List Nat := bus.inFlight.flatMap Prod.snd

/-- A `publish` is called when the one before it has returned. -/
def Sequential (bus : EventBus) : BusOp → Prop
  | .publish _ => bus.waiting = []
  | _ => True

instance (bus : EventBus) (op : BusOp) : Decidable (Sequential bus op) :=
  match op with
  | .publish _ => inferInstanceAs (Decidable (bus.waiting = []))
  | .subscribe | .putWaiting _ | .timeoutWaiting _ | .get _ | .close => .isTrue trivial

/-- Each subscriber is given a part of what was published, in its order and nothing twice. -/
def DeliversInOrder (bus : EventBus) : Prop :=
  ∀ sub ∈ bus.subs, sub.events.Sublist bus.published ∧ (bus.published.Nodup → sub.events.Nodup)

/-- A subscriber that is still to be served lacks the last event, which it waits for. -/
structure EventBus.Ordered (bus : EventBus) : Prop where
  history : bus.history <:+ bus.published
  once : bus.waiting.Nodup
  joined : ∀ s ∈ bus.waiting, s < bus.subs.length
  last : ∀ w ∈ bus.inFlight, w.2 ≠ [] → bus.published.getLast? = some w.1
  served : ∀ sub ∈ bus.subs, sub.events.Sublist bus.published
  lacking : ∀ s ∈ bus.waiting, ∀ sub, bus.subs[s]? = some sub →
    sub.events.Sublist bus.published.dropLast

/-! ## Events of a subscriber -/

namespace Subscriber

variable (sub : Subscriber)

theorem events_put_some (ev : Event) : (sub.put (some ev)).events = sub.events ++ [ev] := by
  unfold events
  rw [stream_put, List.filterMap_append]
  rfl

theorem events_offer_some (queueSize : Nat) (ev : Event) :
    (sub.offer queueSize (some ev)).events = sub.events ∨
      (sub.offer queueSize (some ev)).events = sub.events ++ [ev] := by
  unfold offer
  split
  · exact .inl rfl
  · exact .inr (sub.events_put_some ev)

theorem events_offer_none (queueSize : Nat) : (sub.offer queueSize none).events = sub.events := by
  unfold offer
  split
  · rfl
  · unfold events
    rw [stream_put, List.filterMap_append]
    exact List.append_nil _

theorem events_offer_sublist {queueSize : Nat} {published : List Event} (ev : Event)
    (h : sub.events.Sublist published) :
    (sub.offer queueSize (some ev)).events.Sublist (published ++ [ev]) := by
  rcases sub.events_offer_some queueSize ev with hsame | hmore
  · rw [hsame]
    exact h.trans (List.sublist_append_left _ _)
  · rw [hmore]
    exact h.append (List.Sublist.refl [ev])

end Subscriber

namespace EventBus

variable {bus bus' : EventBus}

/-- A new subscriber is given what the history still has. -/
theorem events_newSubscriber_sublist (h : bus.history <:+ bus.published) :
    bus.newSubscriber.events.Sublist bus.published := by
  have hreplay : bus.replay.Sublist bus.history := by
    unfold replay
    split
    · exact List.Sublist.refl _
    · exact List.take_sublist _ _
  have hevents : bus.newSubscriber.events = bus.replay := by
    unfold Subscriber.events
    rw [stream_newSubscriber, List.filterMap_append]
    split <;> simp
  rw [hevents]
  exact hreplay.trans h.sublist

theorem history_record_suffix (h : bus.history <:+ bus.published) (ev : Event) :
    (bus.record ev).history <:+ (bus.record ev).published := by
  obtain ⟨before, hbefore⟩ := h
  have hwhole : bus.history ++ [ev] <:+ bus.published ++ [ev] :=
    ⟨before, by rw [← List.append_assoc, hbefore]⟩
  exact (List.drop_suffix _ _).trans hwhole

/-! ## Waiting subscribers -/

/-- Whoever heads a wait is served or given up, and waits for nothing more. -/
theorem waiting_perm_of_set {inFlight : List (Event × List Nat)} {i s : Nat} {ev : Event}
    {rest : List Nat} (h : inFlight[i]? = some (ev, s :: rest)) :
    (inFlight.flatMap Prod.snd).Perm (s :: (inFlight.set i (ev, rest)).flatMap Prod.snd) := by
  obtain ⟨hi, hget⟩ := List.getElem?_eq_some_iff.1 h
  have hsplit : inFlight = inFlight.take i ++ (ev, s :: rest) :: inFlight.drop (i + 1) := by
    rw [← hget, List.cons_getElem_drop_succ, List.take_append_drop]
  rw [List.set_eq_take_append_cons_drop, if_pos hi]
  nth_rewrite 1 [hsplit]
  simp only [List.flatMap_append, List.flatMap_cons]
  exact List.perm_middle

theorem snd_eq_nil_of_waiting (h : bus.waiting = []) {w : Event × List Nat} (hw : w ∈ bus.inFlight) :
    w.2 = [] := List.flatMap_eq_nil_iff.1 h w hw

/-- A wait of subscriber `s` that ends, with the subscriber as it is left. -/
theorem Ordered.endWait (h : bus.Ordered) {i s : Nat} {ev : Event} {rest : List Nat}
    (hi : bus.inFlight[i]? = some (ev, s :: rest)) {sub' : Subscriber}
    (hsub' : sub'.events.Sublist bus.published) :
    Ordered { bus with subs := bus.subs.set s sub', inFlight := bus.inFlight.set i (ev, rest) } := by
  have hperm : bus.waiting.Perm (s :: (bus.inFlight.set i (ev, rest)).flatMap Prod.snd) :=
    waiting_perm_of_set hi
  have honce := List.nodup_cons.1 (hperm.nodup_iff.1 h.once)
  have hmem : ∀ s' ∈ (bus.inFlight.set i (ev, rest)).flatMap Prod.snd, s' ∈ bus.waiting :=
    fun s' hs' => hperm.mem_iff.2 (List.mem_cons_of_mem s hs')
  constructor
  · exact h.history
  · exact honce.2
  · intro s' hs'
    rw [List.length_set]
    exact h.joined s' (hmem s' hs')
  · intro w hw hne
    rcases List.mem_or_eq_of_mem_set hw with hold | rfl
    · exact h.last w hold hne
    · exact h.last (ev, s :: rest) (List.mem_of_getElem? hi) (List.cons_ne_nil s rest)
  · intro t ht
    rcases List.mem_or_eq_of_mem_set ht with hold | rfl
    · exact h.served t hold
    · exact hsub'
  · intro s' hs' t ht
    have hne : s ≠ s' := by
      rintro rfl
      exact honce.1 hs'
    rw [List.getElem?_set_ne hne] at ht
    exact h.lacking s' (hmem s' hs') t ht

theorem Ordered.putWaiting (h : bus.Ordered) {i : Nat} (hbus' : bus.putWaiting i = some bus') :
    bus'.Ordered := by
  unfold EventBus.putWaiting at hbus'
  split at hbus'
  · next ev s rest hi =>
      split at hbus'
      · next sub hs =>
          split at hbus'
          · cases hbus'
          · cases hbus'
            apply h.endWait hi
            have hwait : s ∈ bus.waiting := (waiting_perm_of_set hi).mem_iff.2 List.mem_cons_self
            have hlast := h.last _ (List.mem_of_getElem? hi) (List.cons_ne_nil s rest)
            have hpublished : bus.published.dropLast ++ [ev] = bus.published :=
              List.dropLast_append_getLast? ev hlast
            rw [sub.events_put_some, ← hpublished]
            exact (h.lacking s hwait sub hs).append (List.Sublist.refl [ev])
      · cases hbus'
  · cases hbus'

theorem Ordered.timeoutWaiting (h : bus.Ordered) {i : Nat}
    (hbus' : bus.timeoutWaiting i = some bus') : bus'.Ordered := by
  unfold EventBus.timeoutWaiting at hbus'
  split at hbus'
  · next ev s rest hi =>
      cases hbus'
      have hwait : s ∈ bus.waiting := (waiting_perm_of_set hi).mem_iff.2 List.mem_cons_self
      have hs := List.getElem?_eq_getElem (h.joined s hwait)
      have hend := h.endWait hi (h.served _ (List.mem_of_getElem? hs))
      rw [List.set_getElem_self] at hend
      exact hend
  · cases hbus'

/-- Subscribers whose events stay what they are. -/
theorem Ordered.mapSubs (h : bus.Ordered) {f : Subscriber → Subscriber} {closed : Bool}
    (hf : ∀ sub, (f sub).events = sub.events) :
    Ordered { bus with subs := bus.subs.map f, closed := closed } := by
  constructor
  · exact h.history
  · exact h.once
  · intro s hs
    rw [List.length_map]
    exact h.joined s hs
  · exact h.last
  · intro t ht
    obtain ⟨sub, hsub, rfl⟩ := List.mem_map.1 ht
    rw [hf]
    exact h.served sub hsub
  · intro s hs t ht
    rw [List.getElem?_map] at ht
    obtain ⟨sub, hsub, rfl⟩ := Option.map_eq_some_iff.1 ht
    rw [hf]
    exact h.lacking s hs sub hsub

theorem Ordered.get (h : bus.Ordered) {s : Nat} (hbus' : bus.get s = some bus') : bus'.Ordered := by
  unfold EventBus.get at hbus'
  split at hbus'
  · next sub hs =>
      split at hbus'
      · next x rest hq =>
          cases hbus'
          have hsame : Subscriber.events { sub with queue := rest, got := sub.got ++ [x] } = sub.events := by
            unfold Subscriber.events Subscriber.stream
            rw [hq, List.append_assoc]
            rfl
          constructor
          · exact h.history
          · exact h.once
          · intro s' hs'
            rw [List.length_set]
            exact h.joined s' hs'
          · exact h.last
          · intro t ht
            rcases List.mem_or_eq_of_mem_set ht with hold | rfl
            · exact h.served t hold
            · rw [hsame]
              exact h.served sub (List.mem_of_getElem? hs)
          · intro s' hs' t ht
            by_cases hss' : s = s'
            · subst hss'
              rw [List.getElem?_set_self (h.joined s hs')] at ht
              cases ht
              rw [hsame]
              exact h.lacking s hs' sub hs
            · rw [List.getElem?_set_ne hss'] at ht
              exact h.lacking s' hs' t ht
      · cases hbus'
  · cases hbus'

theorem Ordered.subscribe (h : bus.Ordered) : bus.subscribe.Ordered := by
  constructor
  · exact h.history
  · exact h.once
  · intro s hs
    exact Nat.lt_of_lt_of_le (h.joined s hs) (by simp [EventBus.subscribe])
  · exact h.last
  · intro t ht
    rcases List.mem_append.1 ht with hold | hnew
    · exact h.served t hold
    · rw [List.mem_singleton.1 hnew]
      exact events_newSubscriber_sublist h.history
  · intro s hs t ht
    have hold : bus.subs[s]? = some t := by
      rw [← ht]
      exact (List.getElem?_append_left (h.joined s hs)).symm
    exact h.lacking s hs t hold

theorem Ordered.record (h : bus.Ordered) (hseq : bus.waiting = []) (ev : Event) :
    (bus.record ev).Ordered := by
  constructor
  · exact history_record_suffix h.history ev
  · exact h.once
  · exact h.joined
  · intro w hw hne
    exact absurd (snd_eq_nil_of_waiting hseq hw) hne
  · intro sub hsub
    exact (h.served sub hsub).trans (List.sublist_append_left _ _)
  · intro s hs
    rw [show (bus.record ev).waiting = [] from hseq] at hs
    cases hs

/-- All subscribers begin to wait for the last event. -/
theorem Ordered.startWaits (h : bus.Ordered) (hseq : bus.waiting = []) {ev : Event}
    (hlast : bus.published.getLast? = some ev)
    (hlacking : ∀ sub ∈ bus.subs, sub.events.Sublist bus.published.dropLast) :
    Ordered { bus with inFlight := bus.inFlight ++ [(ev, List.range bus.subs.length)] } := by
  have hwaiting : (bus.inFlight ++ [(ev, List.range bus.subs.length)]).flatMap Prod.snd =
      List.range bus.subs.length := by
    rw [List.flatMap_append, show bus.inFlight.flatMap Prod.snd = [] from hseq]
    exact List.append_nil _
  constructor
  · exact h.history
  · have honce : ((bus.inFlight ++ [(ev, List.range bus.subs.length)]).flatMap Prod.snd).Nodup := by
      rw [hwaiting]
      exact List.nodup_range
    exact honce
  · intro s hs
    have hrange : s ∈ (bus.inFlight ++ [(ev, List.range bus.subs.length)]).flatMap Prod.snd := hs
    rw [hwaiting] at hrange
    exact List.mem_range.1 hrange
  · intro w hw hne
    rcases List.mem_append.1 hw with hold | hnew
    · exact h.last w hold hne
    · rw [List.mem_singleton.1 hnew]
      exact hlast
  · exact h.served
  · intro s _ sub hs
    exact hlacking sub (List.mem_of_getElem? hs)

/-- No subscriber waits while the publisher records its next event. -/
theorem Ordered.publish (h : bus.Ordered) (hseq : bus.waiting = []) (ev : Event) :
    (bus.publish ev).Ordered := by
  have hrecord := h.record hseq ev
  unfold EventBus.publish
  dsimp only
  split
  · exact hrecord
  · split
    · apply hrecord.startWaits hseq List.getLast?_concat
      intro sub hsub
      have hdrop : (bus.record ev).published.dropLast = bus.published := List.dropLast_concat
      rw [hdrop]
      exact h.served sub hsub
    · constructor
      · exact hrecord.history
      · exact hrecord.once
      · intro s hs
        rw [List.length_map]
        exact hrecord.joined s hs
      · exact hrecord.last
      · intro t ht
        obtain ⟨sub, hsub, rfl⟩ := List.mem_map.1 ht
        exact sub.events_offer_sublist ev (h.served sub hsub)
      · intro s hs
        have hnone : s ∈ bus.waiting := hs
        rw [hseq] at hnone
        cases hnone

/-! ## Whole runs -/

theorem Ordered.step (h : bus.Ordered) {op : BusOp} (hseq : Sequential bus op)
    (hbus' : busStep bus op = some bus') : bus'.Ordered := by
  cases op with
  | subscribe =>
      cases hbus'
      exact h.subscribe
  | publish ev =>
      cases hbus'
      exact h.publish hseq ev
  | putWaiting i => exact h.putWaiting hbus'
  | timeoutWaiting i => exact h.timeoutWaiting hbus'
  | get s => exact h.get hbus'
  | close =>
      cases hbus'
      exact h.mapSubs fun sub => sub.events_offer_none bus.queueSize

theorem Ordered.deliversInOrder (h : bus.Ordered) : DeliversInOrder bus := fun sub hsub =>
  ⟨h.served sub hsub, (h.served sub hsub).nodup⟩

theorem ordered_new (queueSize historyMax : Nat) : (new queueSize historyMax).Ordered where
  history := List.suffix_rfl
  once := List.nodup_nil
  joined _ hs := nomatch hs
  last _ hw := nomatch hw
  served _ hs := nomatch hs
  lacking _ hs := nomatch hs

theorem sequential_deliversInOrder (queueSize historyMax : Nat) (ops : List BusOp)
    (hseq : EveryStep busStep Sequential (.new queueSize historyMax) ops) :
    Visits busStep DeliversInOrder (.new queueSize historyMax) ops := by
  have hordered := hseq.visits (fun _ _ _ h hop hbus' => h.step hop hbus') (ordered_new queueSize historyMax)
  exact hordered.mono fun _ h => h.deliversInOrder

/-- A critical event that a late subscriber finds in the history is put to the early one only. -/
theorem sequential_deliversInOrder_late : Visits busStep DeliversInOrder (.new 1 1)
    [.subscribe, .publish { type := .workflowStart, executionId := "e" }, .subscribe, .putWaiting 0, .get 0,
      .publish { type := .streamChunk, executionId := "e" }, .get 1] := by
  apply sequential_deliversInOrder
  decide

end EventBus

end OpsKnowledge.Workflow
