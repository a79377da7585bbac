import OpsKnowledge.Lib.History
import OpsKnowledge.Lib.Transition
import Mathlib.Logic.Function.Basic

/-!
# The health of the servers

The sweep of `app/mcp/tasks.py` reads the active servers, probes one after the other, and
commits what it found; for a server that was healthy when it was read it then notifies the
administrators. Other sweeps, and the requests of `app/mcp/service.py` that try a server,
commit in between. A commit writes the columns in which a row differs from what its session
loaded.
-/

namespace OpsKnowledge.Mcp

open OpsKnowledge.Lib

inductive HealthStatus where
  | ok
  | degraded
  | unreachable
  deriving DecidableEq

def HealthStatus.text : HealthStatus → String
  | .ok => "ok"
  | .degraded => "degraded"
  | .unreachable => "unreachable"

structure MCPServer where
  id : Nat
  name : String
  isActive : Bool := true
  healthStatus : Option HealthStatus := none
  lastCheckedAt : Option Nat := none

structure Notification where
  type : String
  title : String
  content : String
  priority : String
  resourceType : String
  resourceId : Nat
  deriving DecidableEq

/-! ## Handshakes -/

/-- How an attempt of a handshake ends. A timeout is a transient error, too. -/
inductive Handshake (α : Type) where
  | done (a : α)
  | timeout
  | error (transient : Bool) (text : String)

namespace Handshake

variable {α : Type}

def health : Handshake α → HealthStatus
  | .done _ => .ok
  | .timeout => .unreachable
  | .error _ _ => .degraded

/-- Another attempt is worth it. -/
def isTransient : Handshake α → Bool
  | .done _ => false
  | .timeout => true
  | .error transient _ => transient

/-- The attempts from the `i`-th on, where `more` may follow it. -/
def retryFrom (attempt : Nat → Handshake α) (i : Nat) : Nat → Handshake α
  | 0 => attempt i
  | more + 1 => if (attempt i).isTransient then retryFrom attempt (i + 1) more else attempt i

end Handshake

/-- `MAX_CONNECT_ATTEMPTS` -/
def maxConnectAttempts : Nat := 3

/-- `_open_with_retry` -/
def openWithRetry {α : Type} (attempt : Nat → Handshake α) : Handshake α :=
  Handshake.retryFrom attempt 0 (maxConnectAttempts - 1)

/-! ## Sessions -/

/-- A row as it was loaded and as the session left it. -/
structure Change where
  loaded : MCPServer
  held : MCPServer

/-- The row after `health_status` and `last_checked_at` have been assigned. -/
def checked (server : MCPServer) (status : HealthStatus) (now : Nat) : Change where
  loaded := server
  held := { server with healthStatus := some status, lastCheckedAt := some now }

namespace Change

variable (c : Change)

def setsHealth : Bool := c.held.healthStatus ≠ c.loaded.healthStatus

def setsTime : Bool := c.held.lastCheckedAt ≠ c.loaded.lastCheckedAt

/-- The row that the `UPDATE` leaves. -/
def apply (row : MCPServer) : MCPServer :=
  { row with
    healthStatus := if c.setsHealth then c.held.healthStatus else row.healthStatus
    lastCheckedAt := if c.setsTime then c.held.lastCheckedAt else row.lastCheckedAt }

/-- The `UPDATE`; `none` where it finds no row. -/
def flush (servers : List MCPServer) : Option (List MCPServer) :=
  if c.setsHealth || c.setsTime then
    if servers.any fun row => row.id = c.held.id then
      some (servers.map fun row => if row.id = c.held.id then c.apply row else row)
    else none
  else some servers

def flushAll : List Change → List MCPServer → Option (List MCPServer)
  | [], servers => some servers
  | c :: cs, servers => (c.flush servers).bind (flushAll cs)

end Change

/-- `recorded` is the commit of a health status, which a new row does not have. -/
inductive HealthEvent where
  | started (sweep : Nat)
  | recorded (server : Nat) (status : Option HealthStatus)
  | committed (sweep : Nat)
  | notified (sweep : Nat) (notification : Notification)
  deriving DecidableEq

def Change.record (c : Change) : Option HealthEvent :=
  if c.setsHealth then some (.recorded c.held.id c.held.healthStatus) else none

/-- The servers that a sweep has loaded, and those of them that it has probed. -/
structure Sweep where
  waiting : List MCPServer
  probed : List Change := []

namespace Sweep

def probe {α : Type} (sweep : Sweep) (outcome : Handshake α) (now : Nat) : Option Sweep :=
  match sweep.waiting with
  | [] => none
  | server :: waiting =>
      some { waiting := waiting, probed := sweep.probed ++ [checked server outcome.health now] }

/-- `newly_failed` -/
def newlyFailed (sweep : Sweep) : List MCPServer :=
  (sweep.probed.filter fun c =>
    c.held.healthStatus ≠ some .ok ∧ c.loaded.healthStatus = some .ok).map Change.held

end Sweep

/-- The notification of `_notify_admins_unreachable`. -/
def unreachableNotification (server : MCPServer) : Notification where
  type := "system"
  title := "MCP 服务器不可达"
  content := "MCP 服务器 '" ++ server.name ++ "' 健康检查失败，状态: " ++
    (server.healthStatus.elim "None" HealthStatus.text) ++ ". 请前往 设置 → MCP 服务器 查看。"
  priority := "high"
  resourceType := "mcp_server"
  resourceId := server.id

/-! ## The system -/

structure HealthState where
  servers : List MCPServer
  sweeps : Nat → Option Sweep := fun _ => none
  /-- The servers that committed sweeps have yet to report. -/
  reports : Nat → Option (List MCPServer) := fun _ => none
  /-- The rows that requests have loaded. -/
  requests : List MCPServer := []
  log : List HealthEvent := []

/-- A handshake is given with its attempts, or its one attempt in a sweep. -/
inductive HealthAction where
  | create (server : MCPServer)
  | update (id : Nat) (name : Option String) (isActive : Option Bool)
  | delete (id : Nat)
  | load (id : Nat)
  | testConnection (i : Nat) (attempt : Nat → Handshake Unit) (now : Nat)
  | discoverTools (i : Nat) (attempt : Nat → Handshake Unit) (now : Nat)
  | startSweep (w : Nat)
  | probe (w : Nat) (outcome : Handshake Unit) (now : Nat)
  | commitSweep (w : Nat)
  | notify (w : Nat) (stored : Bool)

namespace HealthState

variable (s : HealthState)

/-- A session commits its changes, or fails. -/
def commit (changes : List Change) (events : List HealthEvent) : Option HealthState :=
  (Change.flushAll changes s.servers).map fun servers =>
    { s with servers := servers, log := s.log ++ (changes.filterMap Change.record ++ events) }

/-- A new row, with the id that its session has made up. -/
def create (server : MCPServer) : Option HealthState :=
  if server.id ∈ s.servers.map MCPServer.id then none
  else some
    { s with
      servers := s.servers ++ [{ server with healthStatus := none, lastCheckedAt := none }]
      log := s.log ++ [.recorded server.id none] }

def update (id : Nat) (name : Option String) (isActive : Option Bool) : HealthState :=
  { s with
    servers := s.servers.map fun row =>
      if row.id = id then { row with name := name.getD row.name, isActive := isActive.getD row.isActive }
      else row }

def delete (id : Nat) : HealthState :=
  { s with servers := s.servers.filter fun row => row.id ≠ id }

def load (id : Nat) : Option HealthState :=
  (s.servers.find? fun row => row.id = id).map fun row => { s with requests := s.requests ++ [row] }

/-- A request that has loaded `server` ends; where its commit fails nothing is written. -/
def endRequest (i : Nat) (changes : List Change) : HealthState :=
  let s := { s with requests := s.requests.eraseIdx i }
  (s.commit changes []).getD s

def testConnection (i : Nat) (outcome : Handshake Unit) (now : Nat) : Option HealthState :=
  s.requests[i]?.map fun server => s.endRequest i [checked server outcome.health now]

/-- A discovery that fails raises, and what it has flushed is rolled back. -/
def discoverTools (i : Nat) (outcome : Handshake Unit) (now : Nat) : Option HealthState :=
  s.requests[i]?.map fun server =>
    s.endRequest i (if outcome.health = .ok then [checked server .ok now] else [])

def startSweep (w : Nat) : Option HealthState :=
  if HealthEvent.started w ∈ s.log then none
  else some
    { s with
      sweeps := Function.update s.sweeps w (some { waiting := s.servers.filter MCPServer.isActive })
      log := s.log ++ [.started w] }

def probe (w : Nat) (outcome : Handshake Unit) (now : Nat) : Option HealthState :=
  (s.sweeps w).bind fun sweep => (sweep.probe outcome now).map fun sweep =>
    { s with sweeps := Function.update s.sweeps w (some sweep) }

/-- A sweep that fails to commit ends. -/
def commitSweep (w : Nat) : Option HealthState :=
  (s.sweeps w).bind fun sweep =>
    if sweep.waiting.isEmpty then
      let s := { s with sweeps := Function.update s.sweeps w none }
      some (((s.commit sweep.probed [.committed w]).map fun s =>
        { s with reports := Function.update s.reports w (some sweep.newlyFailed) }).getD s)
    else none

/-- The notifications of a sweep are stored together, or none of them is. -/
def notify (w : Nat) (stored : Bool) : Option HealthState :=
  (s.reports w).map fun servers =>
    { s with
      reports := Function.update s.reports w none
      log := s.log ++
        if stored then servers.map fun server => .notified w (unreachableNotification server) else [] }

def step : HealthAction → Option HealthState
  | .create server => s.create server
  | .update id name isActive => some (s.update id name isActive)
  | .delete id => some (s.delete id)
  | .load id => s.load id
  | .testConnection i attempt now => s.testConnection i (openWithRetry attempt) now
  | .discoverTools i attempt now => s.discoverTools i (openWithRetry attempt) now
  | .startSweep w => s.startSweep w
  | .probe w outcome now => s.probe w outcome now
  | .commitSweep w => s.commitSweep w
  | .notify w stored => s.notify w stored

end HealthState

/-! ## Attempts -/

section Attempts

variable {α : Type}

end Attempts

/-! ## Rows and records -/

def recordOf (server : Nat) : HealthEvent → Option (Option HealthStatus)
  | .recorded id status => if id = server then some status else none
  | .started _ | .committed _ | .notified _ _ => none

theorem eq_recorded_of_recordOf {server : Nat} {status : Option HealthStatus} {e : HealthEvent}
    (h : recordOf server e = some status) : e = .recorded server status := by
  cases e with
  | recorded id status' =>
      change (if id = server then some status' else none) = some status at h
      split at h
      · next hid =>
          cases h
          rw [hid]
      · cases h
  | started | committed | notified => cases h

/-- The rows have what was recorded last. -/
def Agrees (servers : List MCPServer) (log : List HealthEvent) : Prop :=
  ∀ row ∈ servers, ∀ status ∈ lastOf (recordOf row.id) log, status = row.healthStatus

section Rows

variable {servers servers' : List MCPServer} {log more : List HealthEvent} {c : Change}

theorem Agrees.append_of_none (h : Agrees servers log) (hmore : ∀ e ∈ more, ∀ id, recordOf id e = none) :
    Agrees servers (log ++ more) := by
  intro row hrow status hstatus
  rw [lastOf_append_of_none fun e he => hmore e he row.id] at hstatus
  exact h row hrow status hstatus

theorem Change.flush_eq (h : c.flush servers = some servers') :
    servers' = servers.map fun row => if row.id = c.held.id then c.apply row else row := by
  unfold Change.flush at h
  split at h
  · split at h
    · cases h
      rfl
    · cases h
  · next hsame =>
      cases h
      rw [Bool.or_eq_true, not_or, Bool.not_eq_true, Bool.not_eq_true] at hsame
      have happly : ∀ row, c.apply row = row := by
        intro row
        unfold Change.apply
        rw [hsame.1, hsame.2]
        rfl
      simp [happly]

theorem Change.map_id_flush (h : c.flush servers = some servers') :
    servers'.map MCPServer.id = servers.map MCPServer.id := by
  rw [Change.flush_eq h, List.map_map]
  refine List.map_congr_left fun row _ => ?_
  show MCPServer.id (if _ then _ else _) = _
  split
  · rfl
  · rfl

theorem Agrees.flush (h : Agrees servers log) (hflush : c.flush servers = some servers') :
    Agrees servers' (log ++ c.record.toList) := by
  rw [Change.flush_eq hflush]
  intro row' hrow'
  obtain ⟨row, hrow, rfl⟩ := List.mem_map.1 hrow'
  unfold Change.record
  by_cases hid : row.id = c.held.id
  · rw [if_pos hid]
    cases hsets : c.setsHealth with
    | true =>
        intro status hstatus
        rw [lastOf_append] at hstatus
        have hlast : lastOf (recordOf (c.apply row).id) [.recorded c.held.id c.held.healthStatus] =
            some c.held.healthStatus := by
          show lastOf (recordOf row.id) _ = _
          rw [hid]
          simp [lastOf, recordOf]
        change status ∈ (lastOf (recordOf (c.apply row).id) [_]).or _ at hstatus
        rw [hlast] at hstatus
        cases hstatus
        show _ = if c.setsHealth then _ else _
        rw [if_pos hsets]
    | false =>
        intro status hstatus
        change status ∈ lastOf (recordOf row.id) (log ++ []) at hstatus
        rw [List.append_nil] at hstatus
        show _ = if c.setsHealth then _ else _
        rw [if_neg (by rw [hsets]; exact Bool.false_ne_true)]
        exact h row hrow status hstatus
  · rw [if_neg hid]
    intro status hstatus
    rw [lastOf_append_of_none] at hstatus
    · exact h row hrow status hstatus
    · intro e he
      split at he
      · cases List.mem_singleton.1 he
        exact if_neg (Ne.symm hid)
      · cases he

theorem Agrees.flushAll {changes : List Change} (h : Agrees servers log)
    (hflush : Change.flushAll changes servers = some servers') :
    Agrees servers' (log ++ changes.filterMap Change.record) ∧
      servers'.map MCPServer.id = servers.map MCPServer.id := by
  induction changes generalizing servers log with
  | nil =>
      cases hflush
      exact ⟨by rwa [List.filterMap_nil, List.append_nil], rfl⟩
  | cons c cs ih =>
      obtain ⟨middle, hc, hcs⟩ := Option.bind_eq_some_iff.1 hflush
      obtain ⟨hagrees, hids⟩ := ih (h.flush hc) hcs
      rw [List.append_assoc] at hagrees
      refine ⟨?_, hids.trans (Change.map_id_flush hc)⟩
      cases hrecord : c.record with
      | none =>
          rw [List.filterMap_cons_none hrecord]
          rwa [hrecord] at hagrees
      | some e =>
          rw [List.filterMap_cons_some hrecord]
          rwa [hrecord] at hagrees

theorem lastOf_filterMap_record {changes : List Change} (hids : (changes.map fun c => c.held.id).Nodup)
    (hc : c ∈ changes) (hsets : c.setsHealth = true) :
    lastOf (recordOf c.held.id) (changes.filterMap Change.record) = some c.held.healthStatus := by
  obtain ⟨before, after, rfl⟩ := List.append_of_mem hc
  have hrecord : c.record = some (.recorded c.held.id c.held.healthStatus) := if_pos hsets
  rw [List.filterMap_append, List.filterMap_cons_some hrecord, List.append_cons]
  rw [lastOf_append_of_none, lastOf_append]
  · simp [lastOf, recordOf]
  · intro e he
    obtain ⟨c', hc', hrecord'⟩ := List.mem_filterMap.1 he
    unfold Change.record at hrecord'
    split at hrecord'
    · cases hrecord'
      refine if_neg fun heq => ?_
      rw [List.map_append, List.map_cons, List.nodup_append] at hids
      exact (List.nodup_cons.1 hids.2.1).1 (List.mem_map.2 ⟨c', hc', heq⟩)
    · cases hrecord'

end Rows

/-! ## What the sweeps know -/

/-- Events that start or commit a sweep do it for the first time. -/
structure Fresh (log more : List HealthEvent) : Prop where
  started : ∀ w, .started w ∈ more → .started w ∉ log
  committed : ∀ w, .committed w ∈ more → .committed w ∉ log

theorem Fresh.of_forall {log more : List HealthEvent}
    (h : ∀ e ∈ more, (∀ w, e ≠ .started w) ∧ ∀ w, e ≠ .committed w) : Fresh log more where
  started w hw := absurd rfl ((h _ hw).1 w)
  committed w hw := absurd rfl ((h _ hw).2 w)

/-- When the sweep started, nothing but `ok` had been recorded last. -/
def ReadOk (w server : Nat) (log : List HealthEvent) : Prop :=
  .started w ∈ log ∧
    BeforeEach (.started w) (fun l => ∀ status ∈ lastOf (recordOf server) l, status = some .ok) log

/-- The sweep has recorded a server that it had read as healthy and that it could not reach. -/
structure Alarmed (w : Nat) (server : MCPServer) (log : List HealthEvent) : Prop where
  not_ok : server.healthStatus ≠ some .ok
  readOk : ReadOk w server.id log
  committed : .committed w ∈ log
  recorded : BeforeEach (.committed w)
    (fun l => lastOf (recordOf server.id) l = some server.healthStatus) log

section Facts

variable {w server : Nat} {log more : List HealthEvent}

theorem ReadOk.append (h : ReadOk w server log) (hmore : Fresh log more) :
    ReadOk w server (log ++ more) :=
  ⟨List.mem_append_left more h.1, h.2.append fun hw => hmore.started w hw h.1⟩

theorem Alarmed.append {server : MCPServer} (h : Alarmed w server log) (hmore : Fresh log more) :
    Alarmed w server (log ++ more) where
  not_ok := h.not_ok
  readOk := h.readOk.append hmore
  committed := List.mem_append_left more h.committed
  recorded := h.recorded.append fun hw => hmore.committed w hw h.committed

end Facts

structure Sweep.Sound (w : Nat) (sweep : Sweep) (log : List HealthEvent) : Prop where
  started : .started w ∈ log
  not_committed : .committed w ∉ log
  nodup : ((sweep.probed.map fun c => c.held.id) ++ sweep.waiting.map MCPServer.id).Nodup
  waiting : ∀ server ∈ sweep.waiting, server.healthStatus = some .ok → ReadOk w server.id log
  probed : ∀ c ∈ sweep.probed, c.loaded.healthStatus = some .ok → ReadOk w c.held.id log

theorem Sweep.Sound.append {w : Nat} {sweep : Sweep} {log more : List HealthEvent}
    (h : sweep.Sound w log) (hmore : Fresh log more) (hw : .committed w ∉ more) :
    sweep.Sound w (log ++ more) where
  started := List.mem_append_left more h.started
  not_committed := by
    rw [List.mem_append, not_or]
    exact ⟨h.not_committed, hw⟩
  nodup := h.nodup
  waiting server hserver hok := (h.waiting server hserver hok).append hmore
  probed c hc hok := (h.probed c hc hok).append hmore

/-- A probe moves a server from those that wait to those that are probed. -/
theorem Sweep.Sound.probe {α : Type} {w now : Nat} {sweep sweep' : Sweep} {log : List HealthEvent}
    (h : sweep.Sound w log) {outcome : Handshake α} (hprobe : sweep.probe outcome now = some sweep') :
    sweep'.Sound w log := by
  unfold Sweep.probe at hprobe
  split at hprobe
  · cases hprobe
  · next server waiting hwaiting =>
      cases hprobe
      refine ⟨h.started, h.not_committed, ?_, ?_, ?_⟩
      · have hnodup := h.nodup
        rw [hwaiting, List.map_cons, List.append_cons] at hnodup
        rw [List.map_append]
        exact hnodup
      · intro row hrow
        exact h.waiting row (by rw [hwaiting]; exact List.mem_cons_of_mem server hrow)
      · intro c hc hok
        rcases List.mem_append.1 hc with hc | hc
        · exact h.probed c hc hok
        · cases List.mem_singleton.1 hc
          exact h.waiting server (by rw [hwaiting]; exact List.mem_cons_self) hok

theorem Sweep.mem_newlyFailed {sweep : Sweep} {server : MCPServer} :
    server ∈ sweep.newlyFailed ↔ ∃ c ∈ sweep.probed,
      (c.held.healthStatus ≠ some .ok ∧ c.loaded.healthStatus = some .ok) ∧ c.held = server := by
  unfold Sweep.newlyFailed
  simp only [List.mem_map, List.mem_filter, decide_eq_true_eq, and_assoc]

theorem eq_or_eq_of_update {α : Type} {f : Nat → Option α} {w v : Nat} {x : Option α} {y : α}
    (h : Function.update f w x v = some y) : (v = w ∧ x = some y) ∨ f v = some y := by
  rw [Function.update_apply] at h
  split at h
  · next hvw => exact .inl ⟨hvw, h⟩
  · exact .inr h

namespace HealthState

variable {s s' : HealthState}

structure Sound (s : HealthState) : Prop where
  nodup : (s.servers.map MCPServer.id).Nodup
  agrees : Agrees s.servers s.log
  started : ∀ w, .committed w ∈ s.log → .started w ∈ s.log
  sweeps : ∀ w sweep, s.sweeps w = some sweep → sweep.Sound w s.log
  reports : ∀ w servers, s.reports w = some servers → ∀ server ∈ servers, Alarmed w server s.log
  notified : ∀ w n, .notified w n ∈ s.log →
    ∃ server, n = unreachableNotification server ∧ Alarmed w server s.log

/-- Changes of the rows that the sweeps do not see, with what is recorded of them. -/
theorem Sound.of_servers (h : s.Sound) {servers : List MCPServer} {more : List HealthEvent}
    {requests : List MCPServer} (hmore : ∀ e ∈ more, ∃ id status, e = .recorded id status)
    (hnodup : (servers.map MCPServer.id).Nodup) (hagrees : Agrees servers (s.log ++ more)) :
    Sound { s with servers := servers, requests := requests, log := s.log ++ more } := by
  have hfresh : Fresh s.log more := Fresh.of_forall fun e he => by
    obtain ⟨id, status, rfl⟩ := hmore e he
    exact ⟨fun w => nofun, fun w => nofun⟩
  have hnot : ∀ e ∈ more, (∀ w, e ≠ .committed w) ∧ ∀ w n, e ≠ .notified w n := fun e he => by
    obtain ⟨id, status, rfl⟩ := hmore e he
    exact ⟨fun w => nofun, fun w n => nofun⟩
  refine ⟨hnodup, hagrees, ?_, ?_, ?_, ?_⟩
  · intro w hw
    rcases List.mem_append.1 hw with hw | hw
    · exact List.mem_append_left more (h.started w hw)
    · exact absurd rfl ((hnot _ hw).1 w)
  · intro w sweep hsweep
    exact (h.sweeps w sweep hsweep).append hfresh fun hw => (hnot _ hw).1 w rfl
  · intro w servers hservers server hserver
    exact (h.reports w servers hservers server hserver).append hfresh
  · intro w n hn
    rcases List.mem_append.1 hn with hn | hn
    · obtain ⟨server, heq, halarmed⟩ := h.notified w n hn
      exact ⟨server, heq, halarmed.append hfresh⟩
    · exact absurd rfl ((hnot _ hn).2 w n)

theorem mem_filterMap_record {changes : List Change} {e : HealthEvent}
    (he : e ∈ changes.filterMap Change.record) : ∃ id status, e = .recorded id status := by
  obtain ⟨c, -, hc⟩ := List.mem_filterMap.1 he
  unfold Change.record at hc
  split at hc
  · cases hc
    exact ⟨_, _, rfl⟩
  · cases hc

theorem Sound.endRequest (h : s.Sound) (i : Nat) (changes : List Change) :
    (s.endRequest i changes).Sound := by
  have hwaits : Sound { s with requests := s.requests.eraseIdx i } :=
    ⟨h.nodup, h.agrees, h.started, h.sweeps, h.reports, h.notified⟩
  unfold HealthState.endRequest commit
  dsimp only
  cases hflush : Change.flushAll changes s.servers with
  | none => exact hwaits
  | some servers =>
      obtain ⟨hagrees, hids⟩ := h.agrees.flushAll hflush
      rw [Option.map_some, Option.getD_some, List.append_nil]
      exact h.of_servers (fun e he => mem_filterMap_record he) (by rw [hids]; exact h.nodup) hagrees

theorem Sound.startSweep (h : s.Sound) {w : Nat} (hs' : s.startSweep w = some s') : s'.Sound := by
  unfold HealthState.startSweep at hs'
  split at hs'
  · cases hs'
  · next hnew =>
      cases hs'
      have hfresh : Fresh s.log [.started w] := by
        constructor
        · intro v hv
          cases List.mem_singleton.1 hv
          exact hnew
        · intro v hv
          cases List.mem_singleton.1 hv
      refine ⟨h.nodup, h.agrees.append_of_none ?_, ?_, ?_, ?_, ?_⟩
      · intro e he id
        cases List.mem_singleton.1 he
        rfl
      · intro v hv
        rcases List.mem_append.1 hv with hv | hv
        · exact List.mem_append_left _ (h.started v hv)
        · cases List.mem_singleton.1 hv
      · intro v sweep hsweep
        rcases eq_or_eq_of_update (f := s.sweeps) (w := w) hsweep with ⟨rfl, hx⟩ | hsweep
        · cases hx
          refine ⟨List.mem_append_right _ List.mem_cons_self, ?_, ?_, ?_, ?_⟩
          · intro hv
            rcases List.mem_append.1 hv with hv | hv
            · exact hnew (h.started v hv)
            · cases List.mem_singleton.1 hv
          · exact h.nodup.sublist (List.filter_sublist.map MCPServer.id)
          · intro server hserver hok
            refine ⟨List.mem_append_right _ List.mem_cons_self, BeforeEach.concat_self ?_ hnew⟩
            intro status hstatus
            rw [← hok]
            exact h.agrees server (List.mem_filter.1 hserver).1 status hstatus
          · intro c hc
            cases hc
        · refine (h.sweeps v sweep hsweep).append hfresh fun hv => ?_
          cases List.mem_singleton.1 hv
      · intro v servers hservers server hserver
        exact (h.reports v servers hservers server hserver).append hfresh
      · intro v n hn
        rcases List.mem_append.1 hn with hn | hn
        · obtain ⟨server, heq, halarmed⟩ := h.notified v n hn
          exact ⟨server, heq, halarmed.append hfresh⟩
        · cases List.mem_singleton.1 hn

theorem Sound.probe (h : s.Sound) {w now : Nat} {outcome : Handshake Unit}
    (hs' : s.probe w outcome now = some s') : s'.Sound := by
  obtain ⟨sweep, hsweep, hrest⟩ := Option.bind_eq_some_iff.1 hs'
  obtain ⟨sweep', hprobe, heq⟩ := Option.map_eq_some_iff.1 hrest
  cases heq
  refine ⟨h.nodup, h.agrees, h.started, ?_, h.reports, h.notified⟩
  intro v sweep'' hsweep''
  rcases eq_or_eq_of_update (f := s.sweeps) (w := w) hsweep'' with ⟨rfl, hx⟩ | hsweep''
  · cases hx
    exact (h.sweeps v sweep hsweep).probe hprobe
  · exact h.sweeps v sweep'' hsweep''

/-- What a sweep reports has been recorded by its commit. -/
theorem alarmed_of_newlyFailed {w : Nat} {sweep : Sweep} (h : sweep.Sound w s.log) {server : MCPServer}
    (hserver : server ∈ sweep.newlyFailed) :
    Alarmed w server (s.log ++ (sweep.probed.filterMap Change.record ++ [.committed w])) := by
  obtain ⟨c, hc, ⟨hnot, hok⟩, rfl⟩ := Sweep.mem_newlyFailed.1 hserver
  have hsets : c.setsHealth = true := by
    unfold Change.setsHealth
    rw [hok]
    exact decide_eq_true hnot
  have hnodup : (sweep.probed.map fun c => c.held.id).Nodup := (List.nodup_append.1 h.nodup).1
  have hnew : .committed w ∉ s.log ++ sweep.probed.filterMap Change.record := by
    rw [List.mem_append, not_or]
    refine ⟨h.not_committed, fun he => ?_⟩
    obtain ⟨id, status, heq⟩ := mem_filterMap_record he
    cases heq
  refine ⟨hnot, (h.probed c hc hok).append ?_, ?_, ?_⟩
  · constructor
    · intro v hv
      rcases List.mem_append.1 hv with hv | hv
      · obtain ⟨id, status, heq⟩ := mem_filterMap_record hv
        cases heq
      · cases List.mem_singleton.1 hv
    · intro v hv
      rcases List.mem_append.1 hv with hv | hv
      · obtain ⟨id, status, heq⟩ := mem_filterMap_record hv
        cases heq
      · cases List.mem_singleton.1 hv
        exact h.not_committed
  · simp
  · rw [← List.append_assoc]
    refine BeforeEach.concat_self ?_ hnew
    rw [lastOf_append, lastOf_filterMap_record hnodup hc hsets]
    rfl

theorem Sound.commitSweep (h : s.Sound) {w : Nat} (hs' : s.commitSweep w = some s') : s'.Sound := by
  obtain ⟨sweep, hsweep, hrest⟩ := Option.bind_eq_some_iff.1 hs'
  have hsound := h.sweeps w sweep hsweep
  have hends : ∀ v sweep', Function.update s.sweeps w none v = some sweep' →
      v ≠ w ∧ s.sweeps v = some sweep' := by
    intro v sweep' hv
    rw [Function.update_apply] at hv
    split at hv
    · cases hv
    · next hvw => exact ⟨hvw, hv⟩
  split at hrest
  · rw [← Option.some.inj hrest]
    unfold commit
    dsimp only
    cases hflush : Change.flushAll sweep.probed s.servers with
    | none =>
        exact ⟨h.nodup, h.agrees, h.started, fun v sweep' hv => h.sweeps v sweep' (hends v sweep' hv).2,
          h.reports, h.notified⟩
    | some servers =>
        obtain ⟨hagrees, hids⟩ := h.agrees.flushAll hflush
        have hmem : ∀ e ∈ sweep.probed.filterMap Change.record ++ [.committed w],
            (∃ id status, e = .recorded id status) ∨ e = .committed w := fun e he =>
          (List.mem_append.1 he).imp mem_filterMap_record List.mem_singleton.1
        have hfresh : Fresh s.log (sweep.probed.filterMap Change.record ++ [.committed w]) := by
          constructor
          · intro v hv
            obtain ⟨id, status, heq⟩ | heq := hmem _ hv
            · cases heq
            · cases heq
          · intro v hv
            obtain ⟨id, status, heq⟩ | heq := hmem _ hv
            · cases heq
            · cases heq
              exact hsound.not_committed
        refine ⟨?_, ?_, ?_, ?_, ?_, ?_⟩
        · show (servers.map MCPServer.id).Nodup
          rw [hids]
          exact h.nodup
        · show Agrees servers (s.log ++ _)
          rw [← List.append_assoc]
          refine hagrees.append_of_none fun e he id => ?_
          cases List.mem_singleton.1 he
          rfl
        · intro v hv
          rcases List.mem_append.1 hv with hv | hv
          · exact List.mem_append_left _ (h.started v hv)
          · obtain ⟨id, status, heq⟩ | heq := hmem _ hv
            · cases heq
            · cases heq
              exact List.mem_append_left _ hsound.started
        · intro v sweep' hv
          obtain ⟨hvw, hv⟩ := hends v sweep' hv
          refine (h.sweeps v sweep' hv).append hfresh fun hcommitted => ?_
          obtain ⟨id, status, heq⟩ | heq := hmem _ hcommitted
          · cases heq
          · cases heq
            exact hvw rfl
        · intro v reported hv server hserver
          rcases eq_or_eq_of_update (f := s.reports) (w := w) hv with ⟨rfl, hx⟩ | hv
          · cases hx
            exact alarmed_of_newlyFailed hsound hserver
          · exact (h.reports v reported hv server hserver).append hfresh
        · intro v n hn
          rcases List.mem_append.1 hn with hn | hn
          · obtain ⟨server, heq, halarmed⟩ := h.notified v n hn
            exact ⟨server, heq, halarmed.append hfresh⟩
          · obtain ⟨id, status, heq⟩ | heq := hmem _ hn
            · cases heq
            · cases heq
  · cases hrest

theorem Sound.notify (h : s.Sound) {w : Nat} {stored : Bool} (hs' : s.notify w stored = some s') :
    s'.Sound := by
  obtain ⟨servers, hservers, heq⟩ := Option.map_eq_some_iff.1 hs'
  cases heq
  set more := if stored then servers.map fun server => HealthEvent.notified w (unreachableNotification server)
    else [] with hmore
  have hmem : ∀ e ∈ more, ∃ server ∈ servers, e = .notified w (unreachableNotification server) := by
    intro e he
    rw [hmore] at he
    split at he
    · obtain ⟨server, hserver, rfl⟩ := List.mem_map.1 he
      exact ⟨server, hserver, rfl⟩
    · cases he
  have hfresh : Fresh s.log more := Fresh.of_forall fun e he => by
    obtain ⟨server, -, rfl⟩ := hmem e he
    exact ⟨fun v => nofun, fun v => nofun⟩
  refine ⟨h.nodup, h.agrees.append_of_none ?_, ?_, ?_, ?_, ?_⟩
  · intro e he id
    obtain ⟨server, -, rfl⟩ := hmem e he
    rfl
  · intro v hv
    rcases List.mem_append.1 hv with hv | hv
    · exact List.mem_append_left _ (h.started v hv)
    · obtain ⟨server, -, heq⟩ := hmem _ hv
      cases heq
  · intro v sweep hv
    refine (h.sweeps v sweep hv).append hfresh fun hcommitted => ?_
    obtain ⟨server, -, heq⟩ := hmem _ hcommitted
    cases heq
  · intro v reported hv server hserver
    rcases eq_or_eq_of_update (f := s.reports) (w := w) hv with ⟨-, hx⟩ | hv
    · cases hx
    · exact (h.reports v reported hv server hserver).append hfresh
  · intro v n hn
    rcases List.mem_append.1 hn with hn | hn
    · obtain ⟨server, heq, halarmed⟩ := h.notified v n hn
      exact ⟨server, heq, halarmed.append hfresh⟩
    · obtain ⟨server, hserver, heq⟩ := hmem _ hn
      cases heq
      exact ⟨server, rfl, (h.reports w servers hservers server hserver).append hfresh⟩

theorem Sound.create (h : s.Sound) {server : MCPServer} (hs' : s.create server = some s') : s'.Sound := by
  unfold HealthState.create at hs'
  split at hs'
  · cases hs'
  · next hnew =>
      cases hs'
      refine h.of_servers ?_ ?_ ?_
      · intro e he
        exact ⟨server.id, none, List.mem_singleton.1 he⟩
      · rw [List.map_append, List.nodup_append]
        refine ⟨h.nodup, by simp, ?_⟩
        intro id hid id' hid' heq
        rw [List.mem_singleton.1 hid'] at heq
        exact hnew (heq ▸ hid)
      · intro row hrow status hstatus
        rw [lastOf_append] at hstatus
        rcases List.mem_append.1 hrow with hrow | hrow
        · have hid : server.id ≠ row.id := fun heq => hnew (heq ▸ List.mem_map_of_mem hrow)
          have hnone : lastOf (recordOf row.id) [.recorded server.id none] = none := by
            simp [lastOf, recordOf, hid]
          rw [hnone, Option.none_or] at hstatus
          exact h.agrees row hrow status hstatus
        · cases List.mem_singleton.1 hrow
          have hlast : lastOf (recordOf server.id) [.recorded server.id none] = some none := by
            simp [lastOf, recordOf]
          change status ∈ (lastOf (recordOf server.id) _).or _ at hstatus
          rw [hlast] at hstatus
          cases hstatus
          rfl

theorem Sound.update (h : s.Sound) (id : Nat) (name : Option String) (isActive : Option Bool) :
    (s.update id name isActive).Sound := by
  have hsame : ∀ row : MCPServer,
      let row' := if row.id = id then
        { row with name := name.getD row.name, isActive := isActive.getD row.isActive } else row
      row'.id = row.id ∧ row'.healthStatus = row.healthStatus := by
    intro row
    dsimp only
    split
    · exact ⟨rfl, rfl⟩
    · exact ⟨rfl, rfl⟩
  refine ⟨?_, ?_, h.started, h.sweeps, h.reports, h.notified⟩
  · have hids : (s.update id name isActive).servers.map MCPServer.id = s.servers.map MCPServer.id := by
      rw [HealthState.update, List.map_map]
      exact List.map_congr_left fun row _ => (hsame row).1
    rw [hids]
    exact h.nodup
  · intro row' hrow' status hstatus
    obtain ⟨row, hrow, rfl⟩ := List.mem_map.1 hrow'
    rw [(hsame row).1] at hstatus
    rw [(hsame row).2]
    exact h.agrees row hrow status hstatus

/-- One step. -/
theorem sound_step (h : s.Sound) {a : HealthAction} (hs' : s.step a = some s') : s'.Sound := by
  cases a with
  | create server => exact h.create hs'
  | update id name isActive =>
      cases hs'
      exact h.update id name isActive
  | delete id =>
      cases hs'
      refine ⟨h.nodup.sublist (List.filter_sublist.map MCPServer.id), ?_, h.started, h.sweeps, h.reports,
        h.notified⟩
      intro row hrow
      exact h.agrees row (List.mem_filter.1 hrow).1
  | load id =>
      obtain ⟨row, -, rfl⟩ := Option.map_eq_some_iff.1 hs'
      exact ⟨h.nodup, h.agrees, h.started, h.sweeps, h.reports, h.notified⟩
  | testConnection i attempt now =>
      obtain ⟨server, -, rfl⟩ := Option.map_eq_some_iff.1 hs'
      exact h.endRequest i _
  | discoverTools i attempt now =>
      obtain ⟨server, -, rfl⟩ := Option.map_eq_some_iff.1 hs'
      exact h.endRequest i _
  | startSweep w => exact h.startSweep hs'
  | probe w outcome now => exact h.probe hs'
  | commitSweep w => exact h.commitSweep hs'
  | notify w stored => exact h.notify hs'

theorem sound_run {as : List HealthAction} (h : s.Sound) (hrun : runSteps step s as = some s') :
    s'.Sound := by
  have hvisits : Visits step Sound s as :=
    (EveryStep.of_forall (C := fun _ _ => True) (fun _ _ => trivial) s as).visits
      (fun _ _ _ hs _ hs' => sound_step hs hs') h
  exact hvisits.last hrun

/-- Nothing is under way and nothing has been recorded. -/
theorem sound_start {servers : List MCPServer} (hids : (servers.map MCPServer.id).Nodup) :
    Sound { servers := servers } where
  nodup := hids
  agrees := by
    intro row _ status hstatus
    cases hstatus
  started := by
    intro w hw
    cases hw
  sweeps := by
    intro w sweep hsweep
    cases hsweep
  reports := by
    intro w servers hservers
    cases hservers
  notified := by
    intro w n hn
    cases hn

end HealthState

/-- However sweeps, requests and changes of the servers interleave, a notification tells a failure that its
sweep had committed as the status of the server; and where a sweep that notifies about a server started after
another one that notified about it had committed, `ok` had been committed for the server in between. -/
theorem notifications_sound {servers : List MCPServer} (hids : (servers.map MCPServer.id).Nodup)
    {as : List HealthAction} {s : HealthState}
    (hrun : runSteps HealthState.step { servers := servers } as = some s) :
    (∀ w n, .notified w n ∈ s.log → ∃ server, n = unreachableNotification server ∧
      server.healthStatus ≠ some .ok ∧ .committed w ∈ s.log ∧ ∀ before after,
        s.log = before ++ .committed w :: after →
          lastOf (recordOf server.id) before = some server.healthStatus) ∧
      ∀ w v m n, .notified w m ∈ s.log → .notified v n ∈ s.log → m.resourceId = n.resourceId →
        ∀ before between after, s.log = before ++ .committed w :: (between ++ .started v :: after) →
          .recorded n.resourceId (some .ok) ∈ between := by
  have hsound := HealthState.sound_run (HealthState.sound_start hids) hrun
  constructor
  · intro w n hn
    obtain ⟨server, heq, halarmed⟩ := hsound.notified w n hn
    exact ⟨server, heq, halarmed.not_ok, halarmed.committed, halarmed.recorded⟩
  · intro w v m n hm hn hsame before between after hlog
    obtain ⟨first, rfl, hfirst⟩ := hsound.notified w m hm
    obtain ⟨second, rfl, hsecond⟩ := hsound.notified v n hn
    have hrecorded := hfirst.recorded
    rw [show first.id = second.id from hsame] at hrecorded
    obtain ⟨e, he, hok⟩ :=
      exists_between hfirst.not_ok hrecorded hsecond.readOk.2 rfl hlog
    rw [eq_recorded_of_recordOf hok] at he
    exact he

/-- A server fails, is found again by a request, and fails again. -/
def flapping : List HealthAction :=
  [.startSweep 0, .probe 0 .timeout 1, .commitSweep 0, .notify 0 true, .load 7,
    .testConnection 0 (fun k => if k = 0 then .timeout else .done ()) 2, .startSweep 1,
    .probe 1 (.error true "reset") 3, .commitSweep 1, .notify 1 true]

def search : MCPServer := { id := 7, name := "search", healthStatus := some .ok }

theorem notifications_sound_flapping : ∃ s,
    runSteps HealthState.step { servers := [search] } flapping = some s ∧
      .notified 1 (unreachableNotification { search with healthStatus := some .degraded }) ∈ s.log ∧
      ∀ before between after, s.log = before ++ .committed 0 :: (between ++ .started 1 :: after) →
        .recorded 7 (some .ok) ∈ between := by
  have hlog : (runSteps HealthState.step { servers := [search] } flapping).map HealthState.log = some
      [.started 0, .recorded 7 (some .unreachable), .committed 0,
        .notified 0 (unreachableNotification { search with healthStatus := some .unreachable }),
        .recorded 7 (some .ok), .started 1, .recorded 7 (some .degraded), .committed 1,
        .notified 1 (unreachableNotification { search with healthStatus := some .degraded })] := by
    decide +kernel
  obtain ⟨s, hrun, hlog⟩ := Option.map_eq_some_iff.1 hlog
  have hsecond : .notified 1 (unreachableNotification { search with healthStatus := some .degraded }) ∈
      s.log := by
    rw [hlog]
    simp
  refine ⟨s, hrun, hsecond, ?_⟩
  refine (notifications_sound (by decide) hrun).2 0 1
    (unreachableNotification { search with healthStatus := some .unreachable })
    (unreachableNotification { search with healthStatus := some .degraded }) ?_ hsecond rfl
  rw [hlog]
  simp

end OpsKnowledge.Mcp
