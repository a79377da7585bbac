import OpsKnowledge.Lib.Framing
import OpsKnowledge.Lib.JsonText
import OpsKnowledge.Replies.Parsing

/-!
# Event streams

The answers of a chat and of a retrieval test are streams of events, each two lines and an empty
one. Three readers of the browser take them apart again, from reads that are cut anywhere.
-/

namespace OpsKnowledge.Chat.EventStream

open OpsKnowledge.Lib
open Replies (get)

/-! ## The server -/

inductive EventData where
  | dict (members : List (String × JsonValue))
  | str (s : String)

/-- The Python of the server. -/
structure Server where
  reprFloat : Double → String
  depth : Nat

namespace Server

variable (server : Server)

def payload : EventData → Option String
  | .dict members => dumps server.reprFloat server.depth (.obj members)
  | .str s => some s

/-- `sse_event`; `none` where it raises. -/
def sseEvent (event : String) (data : EventData) : Option (List Char) :=
  (server.payload data).map fun payload =>
    "event: ".toList ++ event.toList ++ '\n' :: ("data: ".toList ++ payload.toList ++ ['\n', '\n'])

/-- `stream_chat_response`: what is sent until one of the events raises. -/
def streamChatResponse : List (String × EventData) → List Char
  | [] => []
  | (event, data) :: rest =>
    match server.sseEvent event data with
    | none => []
    | some text => text ++ streamChatResponse rest

end Server

/-! ## The browser -/

/-- What `String.prototype.trim` takes away. -/
def isTrimmed (c : Char) : Bool :=
  let n := c.toNat
  9 ≤ n && n ≤ 13 || n = 32 || n = 0xA0 || n = 0x1680 || 0x2000 ≤ n && n ≤ 0x200A || n = 0x2028 ||
    n = 0x2029 || n = 0x202F || n = 0x205F || n = 0x3000 || n = 0xFEFF

def trim (s : List Char) : List Char := (s.dropWhile isTrimmed).rdropWhile isTrimmed

def isEventLine (line : List Char) : Bool := "event:".toList.isPrefixOf line

def isDataLine (line : List Char) : Bool := "data:".toList.isPrefixOf line

/-- An event, as its listener gets it. -/
structure SSEEvent where
  event : List Char
  data : List Char
  deriving DecidableEq

/-- One line of a read, with the current event. -/
def streamChatLine : List Char × List SSEEvent → List Char → List Char × List SSEEvent
  | (currentEvent, emitted), line =>
    if isEventLine line then (trim (line.drop 6), emitted)
    else if isDataLine line then
      if currentEvent = [] then (currentEvent, emitted)
      else (currentEvent, emitted ++ [⟨currentEvent, trim (line.drop 5)⟩])
    else (currentEvent, emitted)

/-- `streamChat`: the lines that a read has completed, with the current event forgotten before them. -/
def streamChat (reads : List (List Char)) : List SSEEvent :=
  (reads.foldl (readLoop ['\n'] fun emitted lines => (lines.foldl streamChatLine ([], emitted)).2) ([], [])).2

/-- The test of a channel. -/
structure ChannelTest where
  currentEvent : List Char
  accumulated : List Char

section Frames

variable (parse : List Char → Option JsonValue)

/-- `JSON.parse(data).delta`, where that is a string. -/
def stringDelta (data : List Char) : List Char :=
  match parse data with
  | some (.obj members) =>
    match get members "delta" with
    | .str delta => delta.toList
    | _ => []
  | _ => []

def channelTestLine (s : ChannelTest) (line : List Char) : ChannelTest :=
  if isEventLine line then { s with currentEvent := trim (line.drop 6) }
  else if isDataLine line then
    if s.currentEvent = "content_delta".toList then
      { s with accumulated := s.accumulated ++ stringDelta parse (trim (line.drop 5)) }
    else s
  else s

def channelTestFrame (s : ChannelTest) (frame : List Char) : ChannelTest :=
  (splitSeq ['\n'] frame).foldl (channelTestLine parse) s

/-- The frames that each read has completed. -/
def channelTest (reads : List (List Char)) : List Char :=
  (reads.foldl (readLoop ['\n', '\n'] (List.foldl (channelTestFrame parse))) ([], ⟨[], []⟩)).2.accumulated

/-- What the last `message_end` has said about the answer. -/
structure AnswerMeta where
  model : JsonValue
  tokens : JsonValue
  costUsd : JsonValue

/-- The retrieval test. -/
structure RetrievalTest where
  answer : List Char
  answerMeta : Option AnswerMeta

variable (text : JsonValue → List Char)

/-- The name and the data of a frame. -/
def frameLine : List Char × List Char → List Char → List Char × List Char
  | (ev, dataStr), line =>
    if isEventLine line then (trim (line.drop 6), dataStr)
    else if isDataLine line then (ev, dataStr ++ trim (line.drop 5))
    else (ev, dataStr)

/-- `Boolean(v)` -/
def isTruthy : JsonValue → Bool
  | .null => false
  | .bool b => b
  | .int n => n ≠ 0
  | .float x => x ≠ .finite 0 && x ≠ .nan
  | .str s => s ≠ ""
  | .arr _ => true
  | .obj _ => true

/-- `parsed[name]`; what is undefined counts as `null`. -/
def property (parsed : JsonValue) (name : String) : JsonValue :=
  match parsed with
  | .obj members => get members name
  | _ => .null

def answerMetaOf (parsed : JsonValue) : AnswerMeta :=
  ⟨property parsed "model", property parsed "tokens", property parsed "cost_usd"⟩

/-- What a value adds to a string; `text` is for values that are no strings. -/
def asText : JsonValue → List Char
  | .str s => s.toList
  | v => text v

def retrievalTestFrame (s : RetrievalTest) (raw : List Char) : RetrievalTest :=
  let (ev, dataStr) := (splitSeq ['\n'] raw).foldl frameLine ("message".toList, [])
  if dataStr = [] then s
  else match parse dataStr with
    | none => s
    | some .null => s
    | some parsed =>
      if ev = "content_delta".toList ∧ isTruthy (property parsed "delta") then
        { s with answer := s.answer ++ asText text (property parsed "delta") }
      else if ev = "message_end".toList then
        { s with answerMeta := some (answerMetaOf parsed) }
      else s

def retrievalTest (reads : List (List Char)) : RetrievalTest :=
  (reads.foldl (readLoop ['\n', '\n'] (List.foldl (retrievalTestFrame parse text))) ([], ⟨[], none⟩)).2

end Frames

/-! ## Events on the wire -/

namespace SSEEvent

def eventLine (e : SSEEvent) : List Char := "event: ".toList ++ e.event

def dataLine (e : SSEEvent) : List Char := "data: ".toList ++ e.data

/-- The text of an event, without the empty line. -/
def frame (e : SSEEvent) : List Char := e.eventLine ++ '\n' :: e.dataLine

/-- An event that is one line of a name and one of data, with nothing to trim. -/
structure Plain (e : SSEEvent) : Prop where
  event_ne : e.event ≠ []
  data_ne : e.data ≠ []
  event_trim : trim e.event = e.event
  data_trim : trim e.data = e.data
  event_line : '\n' ∉ e.event
  data_line : '\n' ∉ e.data

end SSEEvent

/-- The text of a stream. -/
def wire (es : List SSEEvent) : List Char := es.flatMap fun e => e.frame ++ ['\n', '\n']

theorem trim_space_cons (s : List Char) : trim (' ' :: s) = trim s := by
  unfold trim
  rw [List.dropWhile_cons_of_pos (by decide)]

theorem eventLine_spec {e : SSEEvent} (h : e.Plain) :
    isEventLine e.eventLine = true ∧ trim (e.eventLine.drop 6) = e.event := by
  refine ⟨rfl, ?_⟩
  have hdrop : e.eventLine.drop 6 = ' ' :: e.event := rfl
  rw [hdrop, trim_space_cons, h.event_trim]

theorem dataLine_spec {e : SSEEvent} (h : e.Plain) :
    isEventLine e.dataLine = false ∧ isDataLine e.dataLine = true ∧ trim (e.dataLine.drop 5) = e.data := by
  refine ⟨rfl, rfl, ?_⟩
  have hdrop : e.dataLine.drop 5 = ' ' :: e.data := rfl
  rw [hdrop, trim_space_cons, h.data_trim]

theorem newline_notMem_eventLine {e : SSEEvent} (h : e.Plain) : '\n' ∉ e.eventLine := by
  have hname : '\n' ∉ "event: ".toList := by decide
  exact List.not_mem_append hname h.event_line

theorem newline_notMem_dataLine {e : SSEEvent} (h : e.Plain) : '\n' ∉ e.dataLine := by
  have hname : '\n' ∉ "data: ".toList := by decide
  exact List.not_mem_append hname h.data_line

/-- The lines of a frame. -/
theorem splitSeq_frame {e : SSEEvent} (h : e.Plain) :
    splitSeq ['\n'] e.frame = [e.eventLine, e.dataLine] := by
  have hfirst := splitSeq_part_append (List.cons_ne_nil '\n' [])
    (endsPart_singleton (newline_notMem_eventLine h)) e.dataLine
  have hlast : splitSeq ['\n'] e.dataLine = [e.dataLine] := by
    refine splitSeq_eq_singleton (List.cons_ne_nil _ _) fun hin => ?_
    exact newline_notMem_dataLine h (hin.subset (List.mem_singleton_self _))
  rw [hlast] at hfirst
  exact hfirst

/-- No empty line is inside a frame, or begins at its end. -/
theorem endsPart_frame {e : SSEEvent} (h : e.Plain) : EndsPart ['\n', '\n'] e.frame := by
  intro s hs hsuffix hpre
  have hhead : s.head? = some '\n' := by
    obtain ⟨c, s, rfl⟩ := List.exists_cons_of_ne_nil hs
    rw [(List.cons_prefix_cons.1 hpre).1, List.head?_cons]
  have hinside : s ≠ '\n' :: e.dataLine := by
    rintro rfl
    have hsecond := (List.cons_prefix_cons.1 (List.cons_prefix_cons.1 hpre).2).1
    cases hsecond
  obtain ⟨before, happend⟩ := hsuffix
  rcases List.append_eq_append_iff.1 happend with ⟨a, hline, rfl⟩ | ⟨a, -, htail⟩
  · cases a with
    | nil => exact hinside rfl
    | cons c a =>
        cases hhead
        exact newline_notMem_eventLine h (hline ▸ List.mem_append_right _ List.mem_cons_self)
  · cases a with
    | nil => exact hinside htail.symm
    | cons c a =>
        obtain ⟨s, rfl⟩ := List.head?_eq_some_iff.1 hhead
        have hline := (List.cons.inj htail).2
        exact newline_notMem_dataLine h (hline ▸ List.mem_append_right _ List.mem_cons_self)

theorem frames_wire {es : List SSEEvent} (h : ∀ e ∈ es, e.Plain) :
    (splitSeq ['\n', '\n'] (wire es)).dropLast = es.map SSEEvent.frame := by
  have hsplit := splitSeq_flatMap (List.cons_ne_nil _ _) (fun e he => endsPart_frame (h e he)) []
  rw [List.append_nil] at hsplit
  rw [wire, hsplit, splitSeq_nil, List.dropLast_concat]

/-- The lines of a stream. -/
def wireLines (es : List SSEEvent) : List (List Char) := es.flatMap fun e => [e.eventLine, e.dataLine, []]

theorem lines_wire {es : List SSEEvent} (h : ∀ e ∈ es, e.Plain) :
    (splitSeq ['\n'] (wire es)).dropLast = wireLines es := by
  have hwire : wire es = (wireLines es).flatMap fun line => line ++ ['\n'] := by
    unfold wire wireLines
    rw [List.flatMap_assoc]
    simp [SSEEvent.frame]
  have hends : ∀ line ∈ wireLines es, EndsPart ['\n'] line := by
    intro line hline
    obtain ⟨e, he, hmem⟩ := List.mem_flatMap.1 hline
    apply endsPart_singleton
    simp only [List.mem_cons, List.not_mem_nil, or_false] at hmem
    rcases hmem with rfl | rfl | rfl
    · exact newline_notMem_eventLine (h e he)
    · exact newline_notMem_dataLine (h e he)
    · exact List.not_mem_nil
  have hsplit := splitSeq_flatMap (List.cons_ne_nil _ _) hends []
  rw [List.append_nil, List.map_id'] at hsplit
  rw [hwire, hsplit, splitSeq_nil, List.dropLast_concat]

/-- What has been read of a stream so far is as many whole frames, and a piece of the next one. -/
theorem frames_of_prefix {es : List SSEEvent} (h : ∀ e ∈ es, e.Plain) {received : List Char}
    (hreceived : received <+: wire es) :
    (splitSeq ['\n', '\n'] received).dropLast =
      (es.take ((splitSeq ['\n', '\n'] received).length - 1)).map SSEEvent.frame := by
  have hprefix := dropLast_splitSeq_prefix (List.cons_ne_nil '\n' ['\n']) hreceived
  rw [frames_wire h, List.prefix_iff_eq_take, List.length_dropLast] at hprefix
  rw [List.map_take]
  exact hprefix

/-! ## Readers of frames -/

section Frames

variable {parse : List Char → Option JsonValue} {text : JsonValue → List Char} {es : List SSEEvent}

/-- What the test of a channel takes from an event. -/
def channelDelta (parse : List Char → Option JsonValue) (e : SSEEvent) : List Char :=
  if e.event = "content_delta".toList then stringDelta parse e.data else []

theorem channelTestFrame_frame (s : ChannelTest) {e : SSEEvent} (h : e.Plain) :
    channelTestFrame parse s e.frame = ⟨e.event, s.accumulated ++ channelDelta parse e⟩ := by
  obtain ⟨hevent, hname⟩ := eventLine_spec h
  obtain ⟨hnone, hdata, hvalue⟩ := dataLine_spec h
  unfold channelTestFrame
  rw [splitSeq_frame h]
  simp only [List.foldl_cons, List.foldl_nil, channelTestLine, hevent, hname, hnone, hdata, hvalue, if_true,
    Bool.false_eq_true, if_false, channelDelta]
  split
  · rfl
  · rw [List.append_nil]

theorem foldl_channelTestFrame (s : ChannelTest) (h : ∀ e ∈ es, e.Plain) :
    ((es.map SSEEvent.frame).foldl (channelTestFrame parse) s).accumulated =
      s.accumulated ++ es.flatMap (channelDelta parse) := by
  induction es generalizing s with
  | nil => simp
  | cons e es ih =>
      rw [List.forall_mem_cons] at h
      rw [List.map_cons, List.foldl_cons, channelTestFrame_frame s h.1, ih _ h.2, List.flatMap_cons,
        List.append_assoc]

/-- What the retrieval test makes of an event. -/
def retrievalTestEvent (parse : List Char → Option JsonValue) (text : JsonValue → List Char)
    (s : RetrievalTest) (e : SSEEvent) : RetrievalTest :=
  match parse e.data with
  | none => s
  | some .null => s
  | some parsed =>
    if e.event = "content_delta".toList ∧ isTruthy (property parsed "delta") then
      { s with answer := s.answer ++ asText text (property parsed "delta") }
    else if e.event = "message_end".toList then { s with answerMeta := some (answerMetaOf parsed) }
    else s

theorem retrievalTestFrame_frame (s : RetrievalTest) {e : SSEEvent} (h : e.Plain) :
    retrievalTestFrame parse text s e.frame = retrievalTestEvent parse text s e := by
  obtain ⟨hevent, hname⟩ := eventLine_spec h
  obtain ⟨hnone, hdata, hvalue⟩ := dataLine_spec h
  unfold retrievalTestFrame retrievalTestEvent
  rw [splitSeq_frame h]
  simp only [List.foldl_cons, List.foldl_nil, frameLine, hevent, hname, hnone, hdata, hvalue, if_true,
    Bool.false_eq_true, if_false, List.nil_append, h.data_ne]

theorem foldl_retrievalTestFrame (s : RetrievalTest) (h : ∀ e ∈ es, e.Plain) :
    (es.map SSEEvent.frame).foldl (retrievalTestFrame parse text) s =
      es.foldl (retrievalTestEvent parse text) s := by
  induction es generalizing s with
  | nil => rfl
  | cons e es ih =>
      rw [List.forall_mem_cons] at h
      rw [List.map_cons, List.foldl_cons, List.foldl_cons, retrievalTestFrame_frame s h.1, ih _ h.2]

end Frames

/-! ## The events of the server -/

section Events

variable {server : Server} {parse : List Char → Option JsonValue} {text : JsonValue → List Char}

/-- An event with a dictionary for its data. -/
structure Event where
  name : String
  members : List (String × JsonValue)

namespace Event

def sent (server : Server) (e : Event) : SSEEvent :=
  ⟨e.name.toList, (JsonValue.obj e.members).chars server.reprFloat⟩

/-- The name needs no trimming, the data can be written, and the browser reads it back. -/
structure Sendable (server : Server) (parse : List Char → Option JsonValue) (e : Event) : Prop where
  name_ne : e.name ≠ ""
  name_trim : trim e.name.toList = e.name.toList
  name_line : '\n' ∉ e.name.toList
  writable : (JsonValue.obj e.members).writable server.depth = true
  floats : ∀ x ∈ (JsonValue.obj e.members).floats, ReadsBack server.reprFloat x
  parsed : parse (e.sent server).data = some (.obj e.members)

end Event

theorem trim_braces {s : List Char} : trim ('{' :: (s ++ ['}'])) = '{' :: (s ++ ['}']) := by
  unfold trim
  rw [List.dropWhile_cons_of_neg (by decide), ← List.cons_append,
    List.rdropWhile_concat_neg _ _ _ (by decide)]

theorem Event.Sendable.plain {e : Event} (h : e.Sendable server parse) : (e.sent server).Plain := by
  refine ⟨?_, List.cons_ne_nil _ _, h.name_trim, trim_braces, h.name_line, ?_⟩
  · intro hnil
    exact h.name_ne (String.toList_eq_nil_iff.1 hnil)
  · intro hmem
    have hprintable := isPrintable_chars h.writable h.floats '\n' hmem
    revert hprintable
    decide

theorem Event.Sendable.sseEvent {e : Event} (h : e.Sendable server parse) :
    server.sseEvent e.name (.dict e.members) = some ((e.sent server).frame ++ ['\n', '\n']) := by
  have hpayload : server.payload (.dict e.members) =
      some (String.ofList ((JsonValue.obj e.members).chars server.reprFloat)) :=
    dumps_eq_some.2 ⟨h.writable, rfl⟩
  unfold Server.sseEvent SSEEvent.frame SSEEvent.eventLine SSEEvent.dataLine Event.sent
  have hchars : (String.ofList ((JsonValue.obj e.members).chars server.reprFloat)).toList =
      (JsonValue.obj e.members).chars server.reprFloat := String.toList_ofList
  rw [hpayload, Option.map_some, hchars]
  simp only [List.append_assoc, List.cons_append]

theorem streamChatResponse_eq {events : List Event} (h : ∀ e ∈ events, e.Sendable server parse) :
    server.streamChatResponse (events.map fun e => (e.name, .dict e.members)) =
      wire (events.map (Event.sent server)) := by
  induction events with
  | nil => rfl
  | cons e events ih =>
      rw [List.forall_mem_cons] at h
      rw [List.map_cons, List.map_cons, Server.streamChatResponse, h.1.sseEvent]
      dsimp only
      rw [ih h.2, wire, wire, List.flatMap_cons]

namespace Event

/-- The text that an event adds to the answer. -/
def delta (e : Event) : List Char :=
  if e.name = "content_delta" then
    match get e.members "delta" with
    | .str delta => delta.toList
    | _ => []
  else []

theorem toList_name_eq_iff (e : Event) (name : String) : e.name.toList = name.toList ↔ e.name = name :=
  String.toList_inj

theorem channelDelta_sent {e : Event} (h : e.Sendable server parse) :
    channelDelta parse (e.sent server) = e.delta := by
  have hname : (e.sent server).event = "content_delta".toList ↔ e.name = "content_delta" :=
    e.toList_name_eq_iff _
  unfold channelDelta delta stringDelta
  simp only [hname, h.parsed]

/-- The deltas of the server are strings. -/
def HasDelta (e : Event) : Prop := e.name = "content_delta" → ∃ d, get e.members "delta" = .str d

theorem retrievalTestEvent_sent (s : RetrievalTest) {e : Event} (h : e.Sendable server parse)
    (hdelta : e.HasDelta) : retrievalTestEvent parse text s (e.sent server) =
      ⟨s.answer ++ e.delta,
        if e.name = "message_end" then some (answerMetaOf (.obj e.members)) else s.answerMeta⟩ := by
  have hname : ∀ name : String, (e.sent server).event = name.toList ↔ e.name = name := e.toList_name_eq_iff
  unfold retrievalTestEvent delta
  rw [h.parsed]
  dsimp only
  simp only [hname]
  by_cases hcontent : e.name = "content_delta"
  · obtain ⟨d, hd⟩ := hdelta hcontent
    have hproperty : property (.obj e.members) "delta" = .str d := hd
    have hother : e.name ≠ "message_end" := by
      rw [hcontent]
      decide
    rw [hproperty, hd, if_pos hcontent, if_neg hother, if_neg hother]
    by_cases hempty : d = ""
    · simp [hempty, isTruthy]
    · simp [hcontent, hempty, isTruthy, asText]
  · rw [if_neg (fun hboth => hcontent hboth.1), if_neg hcontent, List.append_nil]
    split
    · rfl
    · rfl

end Event

theorem foldl_retrievalTestEvent (s : RetrievalTest) {events : List Event}
    (h : ∀ e ∈ events, e.Sendable server parse) (hdelta : ∀ e ∈ events, e.HasDelta) :
    (events.map (Event.sent server)).foldl (retrievalTestEvent parse text) s =
      ⟨s.answer ++ events.flatMap Event.delta,
        (((events.filter (·.name = "message_end")).getLast?).map fun e =>
          answerMetaOf (.obj e.members)).or s.answerMeta⟩ := by
  induction events generalizing s with
  | nil => simp
  | cons e events ih =>
      rw [List.forall_mem_cons] at h hdelta
      rw [List.map_cons, List.foldl_cons, Event.retrievalTestEvent_sent s h.1 hdelta.1, ih _ h.2 hdelta.2,
        List.flatMap_cons, List.append_assoc]
      congr 1
      cases hlast : (events.filter (·.name = "message_end")).getLast? with
      | none =>
          rw [List.getLast?_eq_none_iff] at hlast
          by_cases hend : e.name = "message_end"
          · simp [hend, hlast]
          · simp [hend, hlast]
      | some last =>
          by_cases hend : e.name = "message_end"
          · simp [hend, List.getLast?_cons, hlast]
          · simp [hend, hlast]

/-- The events whose frames have arrived as a whole. -/
def received (events : List Event) (reads : List (List Char)) : List Event :=
  events.take ((splitSeq ['\n', '\n'] reads.flatten).length - 1)

/-- However a stream is cut into reads, and wherever it breaks off, both readers of frames show the deltas
that have arrived, and the retrieval test what the last of the arrived ends says. -/
theorem readers_show_received {events : List Event} (h : ∀ e ∈ events, e.Sendable server parse)
    (hdelta : ∀ e ∈ events, e.HasDelta) {reads : List (List Char)}
    (hreads : reads.flatten <+: server.streamChatResponse (events.map fun e => (e.name, .dict e.members))) :
    channelTest parse reads = (received events reads).flatMap Event.delta ∧
      retrievalTest parse text reads = ⟨(received events reads).flatMap Event.delta,
        (((received events reads).filter (·.name = "message_end")).getLast?).map fun e =>
          answerMetaOf (.obj e.members)⟩ := by
  have hplain : ∀ e ∈ events.map (Event.sent server), e.Plain :=
    List.forall_mem_map.2 fun e he => (h e he).plain
  have hsub : ∀ e ∈ received events reads, e ∈ events := fun e he => List.mem_of_mem_take he
  have hplain' : ∀ e ∈ (received events reads).map (Event.sent server), e.Plain :=
    List.forall_mem_map.2 fun e he => (h e (hsub e he)).plain
  rw [streamChatResponse_eq h] at hreads
  have hframes := frames_of_prefix hplain hreads
  rw [← List.map_take] at hframes
  change _ = ((received events reads).map (Event.sent server)).map SSEEvent.frame at hframes
  constructor
  · unfold channelTest
    rw [foldl_readLoop_foldl (List.cons_ne_nil _ _), hframes, foldl_channelTestFrame _ hplain',
      List.nil_append, List.flatMap_map]
    exact List.flatMap_congr fun e he => Event.channelDelta_sent (h e (hsub e he))
  · unfold retrievalTest
    rw [foldl_readLoop_foldl (List.cons_ne_nil _ _), hframes, foldl_retrievalTestFrame _ hplain',
      foldl_retrievalTestEvent _ (fun e he => h e (hsub e he)) fun e he => hdelta e (hsub e he)]
    simp

/-- A stream of two events that breaks off in the second. -/
theorem readers_show_first :
    channelTest (fun s => loads 9 (String.ofList s))
        ["event: content_delta\ndata: \x7b\"delta\": \"h".toList, "i\"\x7d\n\nevent: mess".toList] =
        "hi".toList ∧
      retrievalTest (fun s => loads 9 (String.ofList s)) (fun _ => [])
        ["event: content_delta\ndata: \x7b\"delta\": \"h".toList, "i\"\x7d\n\nevent: mess".toList] =
        ⟨"hi".toList, none⟩ := by
  have hsend : ∀ e ∈ [Event.mk "content_delta" [("delta", .str "hi")], ⟨"message_end", []⟩],
      e.Sendable ⟨fun _ => "", 9⟩ fun s => loads 9 (String.ofList s) := by
    intro e he
    simp only [List.mem_cons, List.not_mem_nil, or_false] at he
    rcases he with rfl | rfl
    · refine ⟨by decide, by decide, by decide, rfl, (fun x hx => by cases hx), ?_⟩
      exact loads_chars rfl fun x hx => by cases hx
    · refine ⟨by decide, by decide, by decide, rfl, (fun x hx => by cases hx), ?_⟩
      exact loads_chars rfl fun x hx => by cases hx
  have hdelta : ∀ e ∈ [Event.mk "content_delta" [("delta", .str "hi")], ⟨"message_end", []⟩], e.HasDelta := by
    intro e he
    simp only [List.mem_cons, List.not_mem_nil, or_false] at he
    rcases he with rfl | rfl
    · exact fun _ => ⟨"hi", rfl⟩
    · exact fun hname => absurd hname (by decide)
  have hreads : ["event: content_delta\ndata: \x7b\"delta\": \"h".toList,
      "i\"\x7d\n\nevent: mess".toList].flatten <+: Server.streamChatResponse ⟨fun _ => "", 9⟩
        ([Event.mk "content_delta" [("delta", .str "hi")], ⟨"message_end", []⟩].map fun e =>
          (e.name, .dict e.members)) := by decide
  exact readers_show_received hsend hdelta hreads

end Events

/-! ## The reader of lines -/

section Lines

/-- The lines of a read, the first of them marked. -/
def marked : List (List Char) → List (Bool × List Char)
  | [] => []
  | line :: lines => (true, line) :: lines.map (false, ·)

/-- What `streamChat` emits for marked lines: the current event is forgotten at a mark. -/
def emissions : List Char → List (Bool × List Char) → List SSEEvent
  | _, [] => []
  | current, (first, line) :: rest =>
    let current := if first then [] else current
    if isEventLine line then emissions (trim (line.drop 6)) rest
    else if isDataLine line then
      if current = [] then emissions current rest
      else ⟨current, trim (line.drop 5)⟩ :: emissions current rest
    else emissions current rest

/-- A line that is not the first of its read. -/
theorem emissions_line (s : List Char × List SSEEvent) (line : List Char) (rest : List (Bool × List Char)) :
    (streamChatLine s line).2 ++ emissions (streamChatLine s line).1 rest =
      s.2 ++ emissions s.1 ((false, line) :: rest) := by
  rw [emissions, if_neg Bool.false_ne_true]
  unfold streamChatLine
  dsimp only
  split
  · rfl
  · split
    · split
      · rfl
      · rw [List.append_assoc, List.singleton_append]
    · rfl

theorem emissions_append (s : List Char × List SSEEvent) (lines : List (List Char))
    (rest : List (Bool × List Char)) :
    (lines.foldl streamChatLine s).2 ++ emissions (lines.foldl streamChatLine s).1 rest =
      s.2 ++ emissions s.1 (lines.map (false, ·) ++ rest) := by
  induction lines generalizing s with
  | nil => rfl
  | cons line lines ih => rw [List.foldl_cons, ih, List.map_cons, List.cons_append, emissions_line]

/-- The first line of a read does not depend on what was current before it. -/
theorem emissions_marked (current : List Char) (lines : List (List Char)) (rest : List (Bool × List Char))
    (hne : lines ≠ []) :
    emissions current (marked lines ++ rest) = emissions [] (lines.map (false, ·) ++ rest) := by
  obtain ⟨line, lines, rfl⟩ := List.exists_cons_of_ne_nil hne
  rw [marked, List.cons_append, List.map_cons, List.cons_append, emissions, emissions, if_pos rfl,
    if_neg Bool.false_ne_true]

theorem foldl_reads (current : List Char) (emitted : List SSEEvent) (groups : List (List (List Char))) :
    groups.foldl (fun emitted lines => (lines.foldl streamChatLine ([], emitted)).2) emitted =
      emitted ++ emissions current (groups.flatMap marked) := by
  induction groups generalizing current emitted with
  | nil => simp [emissions]
  | cons lines groups ih =>
      rw [List.foldl_cons, List.flatMap_cons]
      by_cases hne : lines = []
      · subst hne
        exact ih current emitted
      · rw [ih (lines.foldl streamChatLine ([], emitted)).1, emissions_append,
          emissions_marked current lines _ hne]

/-- Of each event with a complete data line, whether that line is not the first of its read. -/
def delivered (es : List SSEEvent) (lines : List (Bool × List Char)) : List SSEEvent :=
  (es.zipIdx.filter fun (_, i) => (lines[3 * i + 1]?).map Prod.fst = some false).map Prod.fst

theorem delivered_cons (e : SSEEvent) (es : List SSEEvent) (lines : List (Bool × List Char)) :
    delivered (e :: es) lines =
      (if (lines[1]?).map Prod.fst = some false then [e] else []) ++ delivered es (lines.drop 3) := by
  have hlater : ∀ i, (lines.drop 3)[3 * i + 1]? = lines[3 * (i + 1) + 1]? := by
    intro i
    rw [List.getElem?_drop]
    congr 1
    omega
  unfold delivered
  rw [List.zipIdx_cons, List.zipIdx_succ, List.filter_cons, List.filter_map]
  simp only [Function.comp_def, hlater]
  split
  · next h => simp_all
  · next h => simp_all

theorem delivered_nil (es : List SSEEvent) : delivered es [] = [] := by
  simp [delivered]

/-- An event is emitted if its data line is not the first of its read. -/
theorem emissions_wire (current : List Char) {es : List SSEEvent} (h : ∀ e ∈ es, e.Plain)
    {lines : List (Bool × List Char)} (hlines : lines.map Prod.snd <+: wireLines es) :
    emissions current lines = delivered es lines := by
  induction es generalizing current lines with
  | nil =>
      have hnil : lines = [] := List.map_eq_nil_iff.1 (List.prefix_nil.1 hlines)
      rw [hnil]
      rfl
  | cons e es ih =>
      rw [List.forall_mem_cons] at h
      obtain ⟨hevent, hname⟩ := eventLine_spec h.1
      obtain ⟨hnone, hdata, hvalue⟩ := dataLine_spec h.1
      have hblank : isEventLine [] = false ∧ isDataLine [] = false := ⟨rfl, rfl⟩
      have hwire : wireLines (e :: es) = e.eventLine :: e.dataLine :: [] :: wireLines es := rfl
      have hrest : ∀ (current : List Char) (rest : List (Bool × List Char)),
          rest.map Prod.snd <+: [] :: wireLines es → emissions current rest = delivered es (rest.drop 1) := by
        intro current rest hrest
        cases rest with
        | nil => exact (delivered_nil es).symm
        | cons l rest =>
            obtain ⟨m, line⟩ := l
            have hempty : line = [] := (List.cons_prefix_cons.1 hrest).1
            rw [emissions, hempty, hblank.1, hblank.2]
            exact ih _ h.2 (List.cons_prefix_cons.1 hrest).2
      rw [hwire] at hlines
      rw [delivered_cons]
      match lines, hlines with
      | [], _ => simp [emissions, delivered_nil]
      | [(m, line)], hlines =>
          have hline : line = e.eventLine := (List.cons_prefix_cons.1 hlines).1
          simp [emissions, hline, hevent, delivered_nil]
      | (m, line) :: (m', line') :: rest, hlines =>
          have hline : line = e.eventLine := (List.cons_prefix_cons.1 hlines).1
          have hlines' := (List.cons_prefix_cons.1 hlines).2
          have hline' : line' = e.dataLine := (List.cons_prefix_cons.1 hlines').1
          have hlater := fun current => hrest current rest (List.cons_prefix_cons.1 hlines').2
          rw [emissions, hline, hevent, if_pos rfl, hname, emissions, hline', hnone, hdata,
            if_neg Bool.false_ne_true, if_pos rfl, hvalue, hlater]
          cases m' with
          | true => simp
          | false => simp [h.1.event_ne]

/-- The number of the read in which the newline `n` of the stream arrives. -/
def arrival : List (List Char) → Nat → Nat
  | [], _ => 0
  | read :: reads, n => if n < read.count '\n' then 0 else 1 + arrival reads (n - read.count '\n')

theorem length_marked (lines : List (List Char)) : (marked lines).length = lines.length := by
  cases lines with
  | nil => rfl
  | cons line lines => simp [marked]

theorem getElem?_marked {lines : List (List Char)} {n : Nat} (hn : n + 1 < lines.length) :
    ((marked lines)[n + 1]?).map Prod.fst = some false := by
  cases lines with
  | nil => cases hn
  | cons line lines =>
      have hlt : n < lines.length := Nat.lt_of_succ_lt_succ hn
      simp [marked, hlt]

/-- The first line of a read is marked. -/
theorem head?_flatMap_marked (groups : List (List (List Char))) :
    ((groups.flatMap marked)[0]?).map Prod.fst ≠ some false := by
  induction groups with
  | nil => simp
  | cons lines groups ih =>
      cases lines with
      | nil => exact ih
      | cons line lines => simp [marked]

/-- A line is not marked if its newline arrives in the same read as the one before it. -/
theorem getElem?_flatMap_marked {groups : List (List (List Char))} {reads : List (List Char)}
    (h : List.Forall₂ (fun lines read => lines.length = read.count '\n') groups reads) (n : Nat) :
    ((groups.flatMap marked)[n + 1]?).map Prod.fst = some false ↔
      n + 1 < reads.flatten.count '\n' ∧ arrival reads n = arrival reads (n + 1) := by
  induction h generalizing n with
  | nil => simp
  | @cons lines read groups reads hlength _ ih =>
      rw [List.flatMap_cons, List.flatten_cons, List.count_append, ← hlength]
      unfold arrival
      rw [← hlength]
      rcases Nat.lt_trichotomy (n + 1) lines.length with hlt | heq | hgt
      · rw [List.getElem?_append_left (by rwa [length_marked]), if_pos (by omega), if_pos hlt]
        simp only [getElem?_marked hlt, true_iff, and_true]
        omega
      · rw [List.getElem?_append_right (by rw [length_marked]; omega), length_marked, heq, Nat.sub_self,
          if_pos (by omega), if_neg (by omega)]
        simp only [head?_flatMap_marked groups, false_iff, not_and]
        omega
      · have hsub : n + 1 - lines.length = n - lines.length + 1 := by omega
        rw [List.getElem?_append_right (by rw [length_marked]; omega), length_marked, hsub, ih,
          if_neg (by omega), if_neg (by omega)]
        omega

theorem streamChat_eq_delivered {es : List SSEEvent} (h : ∀ e ∈ es, e.Plain) {reads : List (List Char)}
    (hreads : reads.flatten <+: wire es) :
    streamChat reads = delivered es ((readParts ['\n'] [] reads).1.flatMap marked) := by
  have hbuffer : splitSeq ['\n'] [] = [[]] := rfl
  have hsep : ['\n'] ≠ [] := List.cons_ne_nil _ _
  have hlines : ((readParts ['\n'] [] reads).1.flatMap marked).map Prod.snd <+: wireLines es := by
    have hmarked : ∀ lines, (marked lines).map Prod.snd = lines := by
      intro lines
      cases lines with
      | nil => rfl
      | cons line lines => simp [marked]
    have hprefix := dropLast_splitSeq_prefix hsep hreads
    rw [lines_wire h] at hprefix
    rw [List.map_flatMap, List.flatMap_congr fun lines _ => hmarked lines, List.flatMap_id',
      (readParts_flatten hsep hbuffer reads).1]
    exact hprefix
  unfold streamChat
  rw [foldl_readLoop, foldl_reads [], List.nil_append]
  exact emissions_wire [] h hlines

/-- `streamChat` emits an event if and only if the read that completes its data line is the one that has
completed the line of its name: what a cut separates is lost, and nothing else is. -/
theorem streamChat_wire {es : List SSEEvent} (h : ∀ e ∈ es, e.Plain) {reads : List (List Char)}
    (hreads : reads.flatten <+: wire es) :
    streamChat reads = (es.zipIdx.filter fun (_, i) => 3 * i + 1 < reads.flatten.count '\n' ∧
      arrival reads (3 * i) = arrival reads (3 * i + 1)).map Prod.fst := by
  have hbuffer : splitSeq ['\n'] [] = [[]] := rfl
  have hemitted := streamChat_eq_delivered h hreads
  unfold delivered at hemitted
  simp only [getElem?_flatMap_marked (length_readParts '\n' hbuffer reads)] at hemitted
  exact hemitted

/-- A read that ends behind the line of the first name. -/
theorem streamChat_loses_first :
    streamChat ["event: a\n".toList, "data: 1\n\nevent: b\ndata: 2\n\n".toList] =
      [⟨"b".toList, "2".toList⟩] := by
  have hplain : ∀ e ∈ [SSEEvent.mk "a".toList "1".toList, ⟨"b".toList, "2".toList⟩], e.Plain := by
    intro e he
    simp only [List.mem_cons, List.not_mem_nil, or_false] at he
    rcases he with rfl | rfl
    · exact ⟨by decide, by decide, by decide, by decide, by decide, by decide⟩
    · exact ⟨by decide, by decide, by decide, by decide, by decide, by decide⟩
  exact (streamChat_wire hplain (by decide)).trans (by decide)

end Lines

end OpsKnowledge.Chat.EventStream
