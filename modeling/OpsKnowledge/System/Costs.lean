import Mathlib.Algebra.Order.Ring.Int
import Mathlib.Algebra.Ring.Rat
import Mathlib.Data.List.Dedup
import OpsKnowledge.Lib.Buckets
import OpsKnowledge.Lib.Dict
import OpsKnowledge.Lib.OrderBy

/-!
# Costs of a time window

`CostService.summary` and `CostService.timeline`. Both read the rows since a rolling cutoff;
the timeline then shows a fixed list of calendar days. Instants are microseconds since the
beginning of year 1, a date is the number of its day. Sums are exact.
-/

namespace OpsKnowledge.System

open OpsKnowledge.Lib

/-- A row of `cost_records`. -/
structure CostRecord where
  inputTokens : Int
  outputTokens : Int
  cost : ℚ
  createdAt : Int

structure CostSummary where
  totalCost : ℚ
  totalInputTokens : Int
  totalOutputTokens : Int
  callCount : Nat
  windowDays : Int

structure TimelinePoint where
  date : Int
  cost : ℚ
  tokens : Int
  calls : Nat

def microsPerDay : Int := 86400000000

/-- The date of an instant, in UTC. -/
def dateOf (instant : Int) : Int := instant / microsPerDay

/-- `_cutoff`; there are no dates before year 1. -/
def cutoff (now windowDays : Int) : Option Int :=
  let start := now - max 1 windowDays * microsPerDay
  if 0 ≤ start then some start else none

/-- `WHERE created_at >= cutoff` -/
def since (cut : Int) (rows : List CostRecord) : List CostRecord := rows.filter fun r => cut ≤ r.createdAt

def CostRecord.tokens (r : CostRecord) : Int := r.inputTokens + r.outputTokens

/-- The database adds the two columns as integers of 32 bits. -/
def CostRecord.overflows (r : CostRecord) : Bool := r.tokens < -2147483648 || 2147483647 < r.tokens

def summary (rows : List CostRecord) (now windowDays : Int) : Option CostSummary := do
  let cut ← cutoff now windowDays
  let rows := since cut rows
  some {
    totalCost := (rows.map CostRecord.cost).sum
    totalInputTokens := (rows.map CostRecord.inputTokens).sum
    totalOutputTokens := (rows.map CostRecord.outputTokens).sum
    callCount := rows.length
    windowDays := windowDays }

/-- What the query gives for a group of rows, at a date. -/
def pointOf (date : Int) (group : List CostRecord) : TimelinePoint where
  date := date
  cost := (group.map CostRecord.cost).sum
  tokens := (group.map CostRecord.tokens).sum
  calls := group.length

/-- `days` of `timeline` -/
def listedDates (now windowDays : Int) : List Int :=
  (List.range windowDays.toNat).reverse.map fun i : Nat => dateOf (now - i * microsPerDay)

theorem dateOf_sub (now i : Int) : dateOf (now - i * microsPerDay) = dateOf now - i := by
  unfold dateOf microsPerDay
  omega

theorem mem_listedDates {now windowDays date : Int} :
    date ∈ listedDates now windowDays ↔ dateOf now - windowDays < date ∧ date ≤ dateOf now := by
  unfold listedDates
  simp only [List.mem_map, List.mem_reverse, List.mem_range, dateOf_sub]
  constructor
  · rintro ⟨i, hi, rfl⟩
    omega
  · rintro ⟨hfirst, hlast⟩
    exact ⟨(dateOf now - date).toNat, by omega, by omega⟩

theorem nodup_listedDates (now windowDays : Int) : (listedDates now windowDays).Nodup := by
  refine List.Nodup.map ?_ (List.nodup_reverse.2 List.nodup_range)
  intro i j hij
  simp only [dateOf_sub] at hij
  omega

theorem mem_since {cut : Int} {rows : List CostRecord} {r : CostRecord} :
    r ∈ since cut rows ↔ r ∈ rows ∧ cut ≤ r.createdAt := by
  simp [since]

/-- `date_trunc('day', ·)` of a session in UTC. -/
def utcDay (instant : Int) : Int := dateOf instant * microsPerDay

section Timeline

variable (dateTrunc : Int → Int)

/-- `GROUP BY day ORDER BY day` -/
def dayGroups (rows : List CostRecord) : List (Int × List CostRecord) :=
  (orderBy id (rows.map fun r => dateTrunc r.createdAt).dedup).map fun day =>
    (day, rows.filter fun r => dateTrunc r.createdAt = day)

/-- `observed`: each group under the date of its day. -/
def observed (rows : List CostRecord) : Dict Int (List CostRecord) :=
  .ofList ((dayGroups dateTrunc rows).map fun g => (dateOf g.1, g.2))

/-- `observed.get(d, ..)` -/
def observedOn (rows : List CostRecord) (date : Int) : List CostRecord :=
  ((observed dateTrunc rows).get? date).getD []

/-- `dateTrunc` is `date_trunc('day', ·)` in the time zone of the database session. -/
def timeline (rows : List CostRecord) (now windowDays : Int) : Option (List TimelinePoint) := do
  let cut ← cutoff now windowDays
  let rows := since cut rows
  if rows.any CostRecord.overflows then none
  else
    some ((listedDates now windowDays).map fun d =>
      pointOf d (observedOn dateTrunc rows d))

/-! ## Agreement -/

/-- What both say about the window is the same. -/
def Agrees (rows : List CostRecord) (now windowDays : Int) : Prop :=
  ∀ total points, summary rows now windowDays = some total →
    timeline dateTrunc rows now windowDays = some points →
      (points.map TimelinePoint.cost).sum = total.totalCost ∧
      (points.map TimelinePoint.tokens).sum = total.totalInputTokens + total.totalOutputTokens ∧
      (points.map TimelinePoint.calls).sum = total.callCount

/-- Every row since the cutoff belongs to a day of the list, and no two days read back as one date. -/
structure OnListedDays (rows : List CostRecord) (now windowDays cut : Int) : Prop where
  listed : ∀ r ∈ rows, cut ≤ r.createdAt →
    dateOf now - windowDays < dateOf (dateTrunc r.createdAt) ∧ dateOf (dateTrunc r.createdAt) ≤ dateOf now
  apart : ∀ r ∈ rows, ∀ r' ∈ rows, cut ≤ r.createdAt → cut ≤ r'.createdAt →
    dateOf (dateTrunc r.createdAt) = dateOf (dateTrunc r'.createdAt) →
      dateTrunc r.createdAt = dateTrunc r'.createdAt

theorem mem_dayGroups {rows : List CostRecord} {day : Int} {group : List CostRecord} :
    (day, group) ∈ dayGroups dateTrunc rows ↔ ∃ r ∈ rows, dateTrunc r.createdAt = day ∧
      group = rows.filter fun r' => dateTrunc r'.createdAt = day := by
  unfold dayGroups
  simp only [List.mem_map, mem_orderBy, List.mem_dedup, Prod.mk.injEq]
  constructor
  · rintro ⟨_, ⟨r, hr, rfl⟩, rfl, rfl⟩
    exact ⟨r, hr, rfl, rfl⟩
  · rintro ⟨r, hr, rfl, hgroup⟩
    exact ⟨_, ⟨r, hr, rfl⟩, rfl, hgroup.symm⟩

/-- A date shows no rows, or those of one day that reads back as this date. -/
theorem observedOn_cases (rows : List CostRecord) (date : Int) :
    ((∀ r ∈ rows, dateOf (dateTrunc r.createdAt) ≠ date) ∧ observedOn dateTrunc rows date = []) ∨
      ∃ r ∈ rows, dateOf (dateTrunc r.createdAt) = date ∧
        observedOn dateTrunc rows date =
          rows.filter fun r' => dateTrunc r'.createdAt = dateTrunc r.createdAt := by
  unfold observedOn
  cases hget : (observed dateTrunc rows).get? date with
  | none =>
      refine .inl ⟨?_, rfl⟩
      intro r hr hdate
      have hgroup : (dateTrunc r.createdAt, rows.filter fun r' =>
          dateTrunc r'.createdAt = dateTrunc r.createdAt) ∈ dayGroups dateTrunc rows :=
        (mem_dayGroups dateTrunc).2 ⟨r, hr, rfl, rfl⟩
      apply Dict.get?_eq_none_iff.1 hget
      apply Dict.mem_keys_ofList.2
      rw [List.map_map, ← hdate]
      exact List.mem_map_of_mem (f := Prod.fst ∘ fun g => (dateOf g.1, g.2)) hgroup
  | some group =>
      obtain ⟨⟨day, group'⟩, hg, heq⟩ := List.mem_map.1 (Dict.mem_of_get?_ofList hget)
      obtain ⟨rfl, rfl⟩ := Prod.mk.inj heq
      obtain ⟨r, hr, rfl, hgroup⟩ := (mem_dayGroups dateTrunc).1 hg
      exact .inr ⟨r, hr, rfl, hgroup⟩

/-- The rows of a date are among those whose day reads back as this date. -/
theorem observedOn_sublist (rows : List CostRecord) (date : Int) :
    (observedOn dateTrunc rows date).Sublist
      (rows.filter fun r => dateOf (dateTrunc r.createdAt) = date) := by
  rcases observedOn_cases dateTrunc rows date with ⟨-, hnil⟩ | ⟨r, -, hdate, hrows⟩
  · rw [hnil]
    exact List.nil_sublist _
  · rw [hrows]
    apply List.monotone_filter_right
    intro r' hday
    have hday' : dateTrunc r'.createdAt = dateTrunc r.createdAt := by simpa using hday
    simp [hday', hdate]

/-- They are all of these when no two days read back as one date. -/
theorem observedOn_eq {rows : List CostRecord}
    (hapart : ∀ r ∈ rows, ∀ r' ∈ rows, dateOf (dateTrunc r.createdAt) = dateOf (dateTrunc r'.createdAt) →
      dateTrunc r.createdAt = dateTrunc r'.createdAt) (date : Int) :
    observedOn dateTrunc rows date = rows.filter fun r => dateOf (dateTrunc r.createdAt) = date := by
  rcases observedOn_cases dateTrunc rows date with ⟨hnone, hnil⟩ | ⟨r, hr, hdate, hrows⟩
  · rw [hnil, eq_comm, List.filter_eq_nil_iff]
    intro r hr
    simpa using hnone r hr
  · rw [hrows]
    apply List.filter_congr
    intro r' hr'
    rw [decide_eq_decide]
    constructor
    · intro hday
      rw [hday, hdate]
    · intro hdate'
      exact hapart r' hr' r hr (hdate'.trans hdate.symm)

variable {dateTrunc} {rows : List CostRecord} {now windowDays cut : Int}

theorem timeline_eq (hcut : cutoff now windowDays = some cut)
    (hfit : ∀ r ∈ rows, cut ≤ r.createdAt → r.overflows = false) :
    timeline dateTrunc rows now windowDays = some ((listedDates now windowDays).map fun d =>
      pointOf d (observedOn dateTrunc (since cut rows) d)) := by
  have hany : (since cut rows).any CostRecord.overflows = false := by
    rw [List.any_eq_false]
    intro r hr
    obtain ⟨hr, hrecent⟩ := mem_since.1 hr
    simp [hfit r hr hrecent]
  unfold timeline
  simp only [hcut, Option.bind_eq_bind, Option.bind_some, hany]
  rfl

theorem not_overflows_of_timeline {points : List TimelinePoint} (hcut : cutoff now windowDays = some cut)
    (h : timeline dateTrunc rows now windowDays = some points) :
    ∀ r ∈ rows, cut ≤ r.createdAt → r.overflows = false := by
  intro r hr hrecent
  by_contra hover
  have hany : (since cut rows).any CostRecord.overflows = true :=
    List.any_eq_true.2 ⟨r, mem_since.2 ⟨hr, hrecent⟩, by simpa using hover⟩
  unfold timeline at h
  simp only [hcut, Option.bind_eq_bind, Option.bind_some, hany] at h
  cases h

/-- On listed days every sum over the dates is the sum over the rows. -/
theorem sum_observedOn {M : Type*} [AddCommMonoid M] (g : CostRecord → M)
    (hdays : OnListedDays dateTrunc rows now windowDays cut) :
    ((listedDates now windowDays).map fun d =>
      ((observedOn dateTrunc (since cut rows) d).map g).sum).sum = ((since cut rows).map g).sum := by
  have hgroup : ∀ d, observedOn dateTrunc (since cut rows) d =
      (since cut rows).filter fun r => dateOf (dateTrunc r.createdAt) = d := by
    apply observedOn_eq
    intro r hr r' hr'
    exact hdays.apart r (mem_since.1 hr).1 r' (mem_since.1 hr').1 (mem_since.1 hr).2 (mem_since.1 hr').2
  have hall : ((since cut rows).filter fun r =>
      dateOf (dateTrunc r.createdAt) ∈ listedDates now windowDays) = since cut rows := by
    apply List.filter_eq_self.2
    intro r hr
    obtain ⟨hr, hrecent⟩ := mem_since.1 hr
    exact decide_eq_true (mem_listedDates.2 (hdays.listed r hr hrecent))
  simp only [hgroup]
  rw [sum_buckets (fun r : CostRecord => dateOf (dateTrunc r.createdAt)) g
    (nodup_listedDates now windowDays), hall]

/-- When the calls of all dates are the rows of the window, each row is on a date of the list. -/
theorem onListedDays_of_calls
    (h : ((listedDates now windowDays).map fun d =>
      (observedOn dateTrunc (since cut rows) d).length).sum = (since cut rows).length) :
    OnListedDays dateTrunc rows now windowDays cut := by
  let key : CostRecord → Int := fun r => dateOf (dateTrunc r.createdAt)
  have hbuckets := length_buckets key (nodup_listedDates now windowDays) (since cut rows)
  have hle := List.length_filter_le (fun r => decide (key r ∈ listedDates now windowDays)) (since cut rows)
  have heach := eq_of_sum_le
    (fun d _ => (observedOn_sublist dateTrunc (since cut rows) d).length_le)
    (by rw [hbuckets, h]; exact hle)
  have hlen : ((since cut rows).filter fun r => key r ∈ listedDates now windowDays).length =
      (since cut rows).length := by
    rw [← hbuckets, ← h]
    congr 1
    exact List.map_congr_left fun d hd => (heach d hd).symm
  have hlisted : ∀ r ∈ since cut rows, key r ∈ listedDates now windowDays := by
    intro r hr
    simpa using List.length_filter_eq_length_iff.1 hlen r hr
  constructor
  · intro r hr hrecent
    exact mem_listedDates.1 (hlisted r (mem_since.2 ⟨hr, hrecent⟩))
  · intro r hr r' hr' hrecent hrecent' hdate
    have hrow := mem_since.2 ⟨hr, hrecent⟩
    have hrow' := mem_since.2 ⟨hr', hrecent'⟩
    have hsame := (observedOn_sublist dateTrunc (since cut rows) (key r)).eq_of_length
      (heach _ (hlisted r hrow))
    have hin : r ∈ observedOn dateTrunc (since cut rows) (key r) := by
      rw [hsame]
      exact List.mem_filter.2 ⟨hrow, by simp [key]⟩
    have hin' : r' ∈ observedOn dateTrunc (since cut rows) (key r) := by
      rw [hsame]
      exact List.mem_filter.2 ⟨hrow', by simp [key, hdate]⟩
    rcases observedOn_cases dateTrunc (since cut rows) (key r) with ⟨-, hnil⟩ | ⟨r₀, -, -, hrows⟩
    · rw [hnil] at hin
      cases hin
    · rw [hrows] at hin hin'
      have hday := of_decide_eq_true (List.mem_filter.1 hin).2
      have hday' := of_decide_eq_true (List.mem_filter.1 hin').2
      exact hday.trans hday'.symm

/-- The two agree exactly when each row that both read is on one date of the list. -/
theorem agrees_iff (dateTrunc : Int → Int) (rows : List CostRecord) (now windowDays : Int) :
    Agrees dateTrunc rows now windowDays ↔
      ∀ cut, cutoff now windowDays = some cut →
        (∀ r ∈ rows, cut ≤ r.createdAt → r.overflows = false) →
          OnListedDays dateTrunc rows now windowDays cut := by
  constructor
  · intro h cut hcut hfit
    obtain ⟨-, -, hcalls⟩ := h _ _ (by unfold summary; rw [hcut]; rfl) (timeline_eq hcut hfit)
    apply onListedDays_of_calls
    simpa [List.map_map, Function.comp_def, pointOf] using hcalls
  · intro h total points htotal hpoints
    cases hcut : cutoff now windowDays with
    | none =>
        unfold summary at htotal
        rw [hcut] at htotal
        cases htotal
    | some cut =>
        have hfit := not_overflows_of_timeline hcut hpoints
        have hdays := h cut hcut hfit
        rw [timeline_eq hcut hfit] at hpoints
        obtain rfl := Option.some.inj hpoints
        unfold summary at htotal
        rw [hcut] at htotal
        obtain rfl := Option.some.inj htotal
        have hsplit : ((since cut rows).map CostRecord.tokens).sum =
            ((since cut rows).map CostRecord.inputTokens).sum +
              ((since cut rows).map CostRecord.outputTokens).sum := List.sum_map_add
        refine ⟨?_, ?_, ?_⟩
        · simpa [List.map_map, Function.comp_def, pointOf] using sum_observedOn CostRecord.cost hdays
        · rw [← hsplit]
          simpa [List.map_map, Function.comp_def, pointOf] using sum_observedOn CostRecord.tokens hdays
        · simpa [List.map_map, Function.comp_def, pointOf, List.map_const', List.sum_replicate] using
            sum_observedOn (fun _ => (1 : Nat)) hdays

end Timeline

/-- A row of yesterday afternoon, read today at noon for one day: it is counted, today's point is empty. -/
theorem yesterday_not_agrees :
    ¬ ∀ rows now windowDays, Agrees utcDay rows now windowDays := by
  intro h
  have hcalls := (h [⟨100, 20, 1, 739000 * microsPerDay - 36000000000⟩]
    (739000 * microsPerDay + 43200000000) 1 _ _ rfl rfl).2.2
  revert hcalls
  decide

end OpsKnowledge.System
