import ReliableDatagram.Kernel.Run
import ReliableDatagram.Proofs.Table.Lives

/-!
# What a kernel adds to its table

Up to its end, a kernel does what a plain table does that serves one request after the other,
whatever sends fail and whoever receives the events: a kernel `Mirrors` the plain table but for the
number of failed sends. The first input that ends it destroys the channels, and after that it does
nothing any more.
-/

namespace ReliableDatagram

namespace Table

/-- What a request does to a plain table. -/
def operate (t : Table) (now : Nat) : Request → Logged Effect Table
  | .datagram sender bytes => t.onDatagram now sender bytes
  | .connect key => Prod.snd <$> t.connect now key
  | .write key generation w => t.write now key generation w
  | .close key generation => Prod.snd <$> t.close key generation
  | .tick => t.tick now
  | .stats | .channelStats .. => pure t

/-- What a plain table answers to a request at once. Writes are answered by replies, and nobody
waits for a channel to be closed. -/
def answer? (t : Table) (now : Nat) : Request → Option Answer
  | .connect key => some (.generation (t.connect now key).value.1)
  | .stats => some (.stats t.stats)
  | .channelStats key generation => some (.channelStats (t.channelStats? key generation))
  | .datagram .. | .write .. | .close .. | .tick => none

/-- One request after the other. -/
def operateAll : List (Nat × Request) → Table → Logged Effect Table
  | [], t => pure t
  | (now, r) :: rs, t => do operateAll rs (← t.operate now r)

/-- The answers to one request after the other. -/
def answersTo : List (Nat × Request) → Table → List Answer
  | [], _ => []
  | (now, r) :: rs, t => (t.answer? now r).toList ++ answersTo rs (t.operate now r).value

/-- Sends fail outside of a table, which only shows their number in its statistics. -/
def withSendErrors (t : Table) (count : Nat) : Table := { t with sendErrors := count }

def Answer.withSendErrors (count : Nat) : Answer → Answer
  | .stats s => .stats { s with sendErrors := count }
  | a => a

variable {t : Table}

theorem snd_perform (t : Table) (now : Nat) (r : Request) :
    Prod.snd <$> t.perform now r = t.operate now r := by
  cases r <;> rfl

/-- No request does anything else because sends have failed. -/
theorem operate_withSendErrors (t : Table) (count now : Nat) (r : Request) :
    (t.withSendErrors count).operate now r =
      (fun t => t.withSendErrors count) <$> t.operate now r := by
  have config : (t.withSendErrors count).config = t.config := rfl
  have find (key : Key) : (t.withSendErrors count).find? key = t.find? key := rfl
  have live (key : Key) (g : Nat) : (t.withSendErrors count).live? key g = t.live? key g := rfl
  cases r with
  | datagram sender bytes =>
    simp only [operate, onDatagram]
    cases Packet.parse bytes with
    | error _ => rfl
    | ok p =>
      simp only [find]
      cases t.find? ⟨sender, p.header.channel⟩ with
      | some c => rfl
      | none =>
        dsimp only
        split <;> rfl
  | connect key =>
    simp only [operate, connect, find]
    cases t.find? key <;> rfl
  | write key generation w =>
    by_cases long : t.config.maxPayloadLength < w.payload.length
    · simp only [operate, write, config, long, if_true]
      rfl
    · simp only [operate, write, config, live, long, if_false]
      cases t.live? key generation <;> rfl
  | close key generation =>
    simp only [operate, close, live]
    cases t.live? key generation <;> rfl
  | tick => rfl
  | stats => rfl
  | channelStats key generation => rfl

/-- No answer but the statistics tells how many sends have failed. -/
theorem answer?_withSendErrors (t : Table) (count now : Nat) (r : Request) :
    (t.withSendErrors count).answer? now r =
      (t.answer? now r).map (Answer.withSendErrors count) := by
  cases r with
  | connect key =>
    have find : (t.withSendErrors count).find? key = t.find? key := rfl
    simp only [answer?, connect, find]
    cases t.find? key <;> rfl
  | _ => rfl

theorem recount_answer? (t : Table) (count count' now : Nat) (r : Request) :
    ((t.withSendErrors count).answer? now r).map (Answer.withSendErrors count') =
      (t.withSendErrors count').answer? now r := by
  rw [answer?_withSendErrors, answer?_withSendErrors]
  cases t.answer? now r with
  | none => rfl
  | some a => cases a <;> rfl

/-- All events of a table are about a key. -/
theorem settled_operateAll (settled : t.Settled) (rs : List (Nat × Request)) :
    (operateAll rs t).value.Settled ∧
      ∀ event ∈ (operateAll rs t).log.filterMap Effect.event?, event.key?.isSome := by
  induction rs generalizing t with
  | nil => exact ⟨settled, List.forall_mem_nil _⟩
  | cons head rs ih =>
    obtain ⟨now, r⟩ := head
    have applied : t.apply now (.request r) = t.operate now r := snd_perform t now r
    obtain ⟨settled', keyed⟩ := ih (applied ▸ settled_apply settled now (.request r))
    refine ⟨settled', fun event seen => ?_⟩
    have parts : event ∈ (t.apply now (.request r)).log.filterMap Effect.event? ++
        (operateAll rs (t.operate now r).value).log.filterMap Effect.event? := by
      rw [applied, ← List.filterMap_append]
      exact seen
    rcases List.mem_append.mp parts with new | later
    · obtain ⟨e, logged, same⟩ := List.mem_filterMap.mp new
      obtain ⟨key, logged⟩ := part_of_mem_log settled.order logged
      have own := (passage_part settled now (.request r) key).key?_eq event
        (List.mem_filterMap.mpr ⟨e, logged, same⟩)
      rw [own]
      rfl
    · exact keyed event later

end Table

namespace Kernel

open Table (Answer)

def Input.request? : Input → Option Table.Request
  | .request r => some r
  | _ => none

/-- The write in an input, by its ticket. -/
def Input.ticket? : Input → Option Nat
  | .request (.write _ _ w) => some w.ticket
  | _ => none

/-- Why an input ends the kernel: the reason for the channels, and the error that is reported. -/
def Input.ending? : Input → Option (DisconnectReason × Option String)
  | .request _ => none
  | .shutdown | .commandsClosed => some (.endPointShutdown, none)
  | .readFailed error => some (.socketFailure, some error)
  | .inboundClosed => some (.socketFailure, some "receive loop ended")

/-- Runs a kernel whose events are received at some inputs, and not at others. -/
def attend : List (Bool × Timed) → Kernel → Logged Action Kernel
  | [], k => pure k
  | (observed, i) :: is, k => do
    attend is (← { k with observed }.step i.now i.fails i.input)

/-- The requests among the inputs, and when they come. -/
def requests (is : List (Bool × Timed)) : List (Nat × Table.Request) :=
  is.filterMap fun i => i.2.input.request?.map (i.2.now, ·)

def OnlyRequests (is : List (Bool × Timed)) : Prop := ∀ i ∈ is, i.2.input.request?.isSome

def Action.answer? : Action → Option Answer
  | answer a => some a
  | _ => none

/-- A send that failed. -/
def Action.isFailure : Action → Bool
  | transmit _ _ failed => failed
  | _ => false

def failures (log : List Action) : Nat := log.countP Action.isFailure

def replies (log : List Effect) : List Action :=
  (log.filterMap Effect.reply?).map fun (ticket, result) => .reply ticket result

def transmissions (fails : Nat → Bool) (log : List Effect) : List Action :=
  (log.filterMap Effect.datagram?).mapIdx fun i (target, packet) =>
    .transmit target packet (fails i)

def reports (log : List Effect) : List Action := (log.filterMap Effect.event?).map .report

/-- What comes of a request: its answer and the replies, then its datagrams, then its events. -/
def outcome (observed : Bool) (fails : Nat → Bool) (answer? : Option Answer) (log : List Effect) :
    List Action :=
  (answer?.map .answer).toList ++ replies log ++ transmissions fails log ++
    if observed then reports log else []

/-- What comes of inputs after the end: the writes among them are lost. -/
def lostWrites (is : List (Bool × Timed)) : List Action :=
  (is.filterMap fun i => i.2.input.ticket?).map .lost

/-- The kernel runs, and its table is the plain one but for the failed sends. -/
structure Mirrors (failed : Nat) (t : Table) (k : Kernel) : Prop where
  running : k.running = true
  table : k.table = t.withSendErrors failed

variable {k : Kernel} {t : Table} {failed : Nat} {observed : Bool} {fails : Nat → Bool}
  {now : Nat} {r : Table.Request} {is : List (Bool × Timed)} {i : Timed}

section Outcome

variable {answer? : Option Answer} {log : List Effect}

theorem failures_transmissions (fails : Nat → Bool) (log : List Effect) :
    failures (transmissions fails log) =
      (List.range (log.filterMap Effect.datagram?).length).countP fails := by
  have outcomes : (transmissions fails log).map Action.isFailure =
      (List.range (log.filterMap Effect.datagram?).length).map fails := by
    refine List.ext_getElem (by simp [transmissions]) fun j _ _ => ?_
    simp [transmissions, Action.isFailure]
  have count {α : Type} (p : α → Bool) (xs : List α) : xs.countP p = (xs.map p).countP id := by
    rw [List.countP_map]
    rfl
  rw [failures, count, outcomes, ← count]

/-- A view that sees no answers sees the replies, the datagrams and then the events. -/
theorem view_outcome {α : Type} {view : Action → Option α}
    (blind : ∀ a, view (.answer a) = none) :
    (outcome observed fails answer? log).filterMap view =
      (replies log).filterMap view ++ ((transmissions fails log).filterMap view ++
        if observed then (reports log).filterMap view else []) := by
  have silent : (answer?.map Action.answer).toList.filterMap view = [] := by
    cases answer? <;> simp [blind]
  simp only [outcome, List.filterMap_append, silent, List.nil_append, List.append_assoc]
  cases observed <;> rfl

theorem view_transmissions {α : Type} {view : Action → Option α} (log : List Effect)
    (blind : ∀ target packet failed, view (.transmit target packet failed) = none) :
    (transmissions fails log).filterMap view = [] := by
  simp [transmissions, List.mapIdx_eq_zipIdx_map, List.filterMap_map, blind]

theorem datagrams_outcome : (outcome observed fails answer? log).filterMap Action.datagram? =
    log.filterMap Effect.datagram? := by
  have silent : (reports log).filterMap Action.datagram? = [] := by
    simp [reports, List.filterMap_map, Function.comp_def, Action.datagram?]
  rw [view_outcome fun _ => rfl, silent, ite_self, List.append_nil]
  simp [replies, transmissions, List.mapIdx_eq_zipIdx_map, List.filterMap_map, Function.comp_def,
    Action.datagram?]

theorem replies_outcome : (outcome observed fails answer? log).filterMap Action.reply? =
    log.filterMap Effect.reply? := by
  rw [view_outcome fun _ => rfl, view_transmissions _ fun _ _ _ => rfl]
  cases observed <;>
    simp [replies, reports, List.filterMap_map, Function.comp_def, Action.reply?]

theorem events_outcome : (outcome observed fails answer? log).filterMap Action.event? =
    if observed then log.filterMap Effect.event? else [] := by
  rw [view_outcome fun _ => rfl, view_transmissions _ fun _ _ _ => rfl]
  cases observed <;>
    simp [replies, reports, List.filterMap_map, Function.comp_def, Action.event?]

theorem answers_outcome : (outcome observed fails answer? log).filterMap Action.answer? =
    answer?.toList := by
  have told : (replies log).filterMap Action.answer? = [] := by
    simp [replies, List.filterMap_map, Function.comp_def, Action.answer?]
  have seen : (if observed then reports log else []).filterMap Action.answer? = [] := by
    cases observed <;> simp [reports, List.filterMap_map, Function.comp_def, Action.answer?]
  have own : (answer?.map Action.answer).toList.filterMap Action.answer? = answer?.toList := by
    cases answer? <;> rfl
  have sent : (transmissions fails log).filterMap Action.answer? = [] :=
    view_transmissions log fun _ _ _ => rfl
  simp only [outcome, List.filterMap_append, own, told, sent, seen, List.append_nil]

theorem failures_outcome : failures (outcome observed fails answer? log) =
    (List.range (log.filterMap Effect.datagram?).length).countP fails := by
  have calm {log : List Action} (none : ∀ y ∈ log, y.isFailure = false) : failures log = 0 :=
    List.countP_eq_zero.mpr fun y mem => by simp [none y mem]
  have asked : failures (answer?.map Action.answer).toList = 0 := by
    cases answer? <;> rfl
  have told : failures (replies log) = 0 := calm fun y mem => by
    obtain ⟨_, _, rfl⟩ := List.mem_map.mp mem
    rfl
  have seen : failures (if observed then reports log else []) = 0 := calm fun y mem => by
    cases observed with
    | false => cases mem
    | true =>
      obtain ⟨_, _, rfl⟩ := List.mem_map.mp mem
      rfl
  rw [← failures_transmissions]
  unfold failures at *
  simp only [outcome, List.countP_append, asked, told, seen]
  omega

end Outcome

section Requests

/-- A kernel answers just what the table does. -/
theorem answers_perform (t : Table) (now : Nat) (r : Table.Request) :
    answers (t.perform now r).value.1 = ((t.answer? now r).map Action.answer).toList := by
  cases r <;> rfl

theorem flush_eq (k : Kernel) (fails : Nat → Bool) {x : Logged Effect (Answer × Table)}
    {answer? : Option Answer} (told : answers x.value.1 = (answer?.map Action.answer).toList) :
    k.flush fails x =
      ⟨{ k with
          table := x.value.2.recordSendErrors
            (failures (outcome k.observed fails answer? x.log)) },
        outcome k.observed fails answer? x.log⟩ := by
  rw [failures_outcome, outcome, ← told]
  rfl

/-- A kernel serves a request as the plain table does. -/
theorem step_request (mirrors : Mirrors failed t k) (observed : Bool) (now : Nat)
    (fails : Nat → Bool) (r : Table.Request) :
    { k with observed }.step now fails (.request r) =
      let x := t.operate now r
      let log := outcome observed fails ((t.withSendErrors failed).answer? now r) x.log
      ⟨{ k with observed, table := x.value.withSendErrors (failed + failures log) }, log⟩ := by
  have same := Table.snd_perform (t.withSendErrors failed) now r
  rw [Table.operate_withSendErrors] at same
  have value : ((t.withSendErrors failed).perform now r).value.2 =
      (t.operate now r).value.withSendErrors failed := congrArg Logged.value same
  have log : ((t.withSendErrors failed).perform now r).log = (t.operate now r).log :=
    congrArg Logged.log same
  simp only [step, mirrors.running, if_true, mirrors.table, flush_eq _ _ (answers_perform _ now r),
    value, log]
  rfl

@[simp] theorem value_attend_cons (observed : Bool) (i : Timed) (is : List (Bool × Timed))
    (k : Kernel) : (attend ((observed, i) :: is) k).value =
      (attend is ({ k with observed }.step i.now i.fails i.input).value).value := rfl

@[simp] theorem log_attend_cons (observed : Bool) (i : Timed) (is : List (Bool × Timed))
    (k : Kernel) : (attend ((observed, i) :: is) k).log =
      ({ k with observed }.step i.now i.fails i.input).log ++
        (attend is ({ k with observed }.step i.now i.fails i.input).value).log := rfl

theorem value_attend_append (is is' : List (Bool × Timed)) (k : Kernel) :
    (attend (is ++ is') k).value = (attend is' (attend is k).value).value := by
  induction is generalizing k with
  | nil => rfl
  | cons i is ih => exact ih _

theorem log_attend_append (is is' : List (Bool × Timed)) (k : Kernel) :
    (attend (is ++ is') k).log = (attend is k).log ++ (attend is' (attend is k).value).log := by
  induction is generalizing k with
  | nil => rfl
  | cons i is ih =>
    rw [List.cons_append, log_attend_cons, log_attend_cons, ih, List.append_assoc]
    rfl

theorem only_cons_iff : OnlyRequests ((observed, i) :: is) ↔
    (∃ r, i.input = .request r) ∧ OnlyRequests is := by
  simp only [OnlyRequests, List.forall_mem_cons]
  refine and_congr_left fun _ => ?_
  cases i.input <;> simp [Input.request?]

theorem requests_cons (asked : i.input = .request r) :
    requests ((observed, i) :: is) = (i.now, r) :: requests is := by
  simp [requests, asked, Input.request?]

/-- What the requests among the inputs do to a plain table. -/
def plain (is : List (Bool × Timed)) (t : Table) : Logged Effect Table :=
  Table.operateAll (requests is) t

theorem plain_cons (asked : i.input = .request r) : plain ((observed, i) :: is) t =
    ⟨(plain is (t.operate i.now r).value).value,
      (t.operate i.now r).log ++ (plain is (t.operate i.now r).value).log⟩ := by
  rw [plain, requests_cons asked]
  rfl

theorem attend_requests (mirrors : Mirrors failed t k) (only : OnlyRequests is) :
    Mirrors (failed + failures (attend is k).log) (plain is t).value (attend is k).value := by
  induction is generalizing failed t k with
  | nil => exact mirrors
  | cons head is ih =>
    obtain ⟨observed, i⟩ := head
    obtain ⟨⟨r, asked⟩, rest⟩ := only_cons_iff.mp only
    rw [plain_cons asked, value_attend_cons, log_attend_cons, asked, step_request mirrors, failures,
      List.countP_append, ← Nat.add_assoc]
    exact ih ⟨mirrors.running, rfl⟩ rest

/-- What a view shows of outcomes it shows of a run. -/
theorem view_requests {α : Type} {view : Action → Option α} {sight : Effect → Option α}
    (agree : ∀ i ∈ is, ∀ answer? log, (outcome i.1 i.2.fails answer? log).filterMap view =
      log.filterMap sight) (mirrors : Mirrors failed t k) (only : OnlyRequests is) :
    (attend is k).log.filterMap view = (plain is t).log.filterMap sight := by
  induction is generalizing failed t k with
  | nil => rfl
  | cons head is ih =>
    obtain ⟨observed, i⟩ := head
    obtain ⟨⟨r, asked⟩, rest⟩ := only_cons_iff.mp only
    obtain ⟨first, later⟩ := List.forall_mem_cons.mp agree
    rw [plain_cons asked, log_attend_cons, asked, step_request mirrors, List.filterMap_append,
      List.filterMap_append, first]
    exact congrArg _ (ih later ⟨mirrors.running, rfl⟩ rest)

/-- A receiver that is not always there misses events, and sees no others. -/
theorem events_sublist (mirrors : Mirrors failed t k) (only : OnlyRequests is) :
    ((attend is k).log.filterMap Action.event?).Sublist
      ((plain is t).log.filterMap Effect.event?) := by
  induction is generalizing failed t k with
  | nil => exact .slnil
  | cons head is ih =>
    obtain ⟨observed, i⟩ := head
    obtain ⟨⟨r, asked⟩, rest⟩ := only_cons_iff.mp only
    rw [plain_cons asked, log_attend_cons, asked, step_request mirrors, List.filterMap_append,
      List.filterMap_append, events_outcome]
    refine List.Sublist.append ?_ (ih ⟨mirrors.running, rfl⟩ rest)
    cases observed
    · exact List.nil_sublist _
    · exact List.Sublist.refl _

/-- A plain table gives all answers, if the failed sends are left out. -/
theorem answers_requests (mirrors : Mirrors failed t k) (only : OnlyRequests is) :
    ((attend is k).log.filterMap Action.answer?).map (Answer.withSendErrors 0) =
      Table.answersTo (requests is) (t.withSendErrors 0) := by
  induction is generalizing failed t k with
  | nil => rfl
  | cons head is ih =>
    obtain ⟨observed, i⟩ := head
    obtain ⟨⟨r, asked⟩, rest⟩ := only_cons_iff.mp only
    rw [requests_cons asked, Table.answersTo, Table.operate_withSendErrors, log_attend_cons, asked,
      step_request mirrors, List.filterMap_append, List.map_append, answers_outcome,
      ← Option.toList_map, Table.recount_answer?]
    exact congrArg _ (ih ⟨mirrors.running, rfl⟩ rest)

end Requests

section Ending

/-- The last actions: all parked writes fail, and all connected channels are reported to be
disconnected before the end itself. -/
def farewell (observed : Bool) (channels : List Channel) (reason : DisconnectReason)
    (error : Option String) : List Action :=
  (channels.flatMap fun c => c.sender.parked.map fun w =>
      .reply w.ticket (.error (.connectionClosed c.key))) ++
    if observed then
      ((channels.filter fun c => c.phase = .connected).map fun c =>
        .report (.disconnected c.key reason)) ++ [.report (.terminated error)]
    else []

/-- What tells the caller of a shutdown that it is complete. -/
def Input.receipt : Input → List Action
  | .shutdown => [.done]
  | _ => []

theorem replies_destroy (c : Channel) (reason : DisconnectReason) :
    (c.destroy reason).log.filterMap Effect.reply? =
      c.sender.parked.map fun w => (w.ticket, .error (.connectionClosed c.key)) := by
  have silent : (if c.phase = .connected then [Effect.emit (.disconnected c.key reason)]
      else []).filterMap Effect.reply? = [] := by
    split <;> rfl
  simp [Channel.destroy, List.filterMap_map, Function.comp_def, Effect.reply?, silent]

theorem filterMap_shutdown {α : Type} (view : Effect → Option α) (t : Table)
    (reason : DisconnectReason) :
    (t.shutdown reason).log.filterMap view =
      t.channels.flatMap fun c => (c.destroy reason).log.filterMap view := by
  simp only [Table.shutdown, List.filterMap_flatMap]

theorem datagrams_shutdown (t : Table) (reason : DisconnectReason) :
    (t.shutdown reason).log.filterMap Effect.datagram? = [] := by
  refine List.filterMap_eq_nil_iff.mpr fun e logged => ?_
  obtain ⟨c, _, logged⟩ := List.mem_flatMap.mp logged
  exact Channel.datagram?_of_mem_destroy logged

theorem replies_shutdown (t : Table) (reason : DisconnectReason) :
    replies (t.shutdown reason).log = t.channels.flatMap fun c => c.sender.parked.map fun w =>
      .reply w.ticket (.error (.connectionClosed c.key)) := by
  simp only [replies, filterMap_shutdown, replies_destroy, List.map_flatMap, List.map_map]
  rfl

theorem reports_shutdown (t : Table) (reason : DisconnectReason) :
    reports (t.shutdown reason).log = (t.channels.filter fun c => c.phase = .connected).map
      fun c => .report (.disconnected c.key reason) := by
  have events (c : Channel) : (c.destroy reason).log.filterMap Effect.event? =
      if c.phase = .connected then [.disconnected c.key reason] else [] :=
    Table.events_destroy c reason
  simp only [reports, filterMap_shutdown, events]
  induction t.channels with
  | nil => rfl
  | cons c cs ih =>
    rw [List.flatMap_cons, List.map_append, ih]
    by_cases connected : c.phase = .connected <;> simp [connected]

/-- The end of all channels, and then of the kernel, makes a farewell. -/
theorem outcome_shutdown (observed : Bool) (fails : Nat → Bool) (t : Table)
    (reason : DisconnectReason) (error : Option String) :
    outcome observed fails none ((t.shutdown reason).log ++ [.emit (.terminated error)]) =
      farewell observed t.channels reason error := by
  have told : replies ((t.shutdown reason).log ++ [.emit (.terminated error)]) =
      replies (t.shutdown reason).log := by
    simp [replies, Effect.reply?]
  have sent :
      transmissions fails ((t.shutdown reason).log ++ [.emit (.terminated error)]) = [] := by
    simp [transmissions, datagrams_shutdown, Effect.datagram?]
  have seen : reports ((t.shutdown reason).log ++ [.emit (.terminated error)]) =
      reports (t.shutdown reason).log ++ [.report (.terminated error)] := by
    simp [reports, Effect.event?]
  rw [outcome, told, sent, seen, replies_shutdown, reports_shutdown, List.append_nil]
  rfl

theorem terminate_eq (k : Kernel) (fails : Nat → Bool) (reason : DisconnectReason)
    (error : Option String) :
    k.terminate fails reason error =
      ⟨{ k with table := { k.table with channels := [] }, running := false },
        farewell k.observed k.table.channels reason error⟩ := by
  have said := outcome_shutdown k.observed fails k.table reason error
  generalize all : (k.table.shutdown reason).log ++ [Effect.emit (.terminated error)] = log at said
  have quiet : log.filterMap Effect.datagram? = [] := by
    rw [← all, List.filterMap_append, datagrams_shutdown]
    rfl
  -- nothing is sent at the end, so that no send fails
  have flushed : k.flush fails ⟨(.none, { k.table with channels := [] }), log⟩ =
      ⟨{ k with table := { k.table with channels := [] } },
        farewell k.observed k.table.channels reason error⟩ := by
    have none : answers Answer.none = ((none : Option Answer).map Action.answer).toList := rfl
    rw [flush_eq k fails none, failures_outcome, quiet, said]
    rfl
  have done : k.terminate fails reason error =
      ⟨{ (k.flush fails ⟨(.none, { k.table with channels := [] }), log⟩).value with
          running := false },
        (k.flush fails ⟨(.none, { k.table with channels := [] }), log⟩).log ++ []⟩ := by
    rw [← all]
    rfl
  rw [done, flushed, List.append_nil]

/-- An input that ends a kernel makes it say farewell. -/
theorem step_ending (running : k.running = true) {reason : DisconnectReason} {error : Option String}
    {input : Input} (ends : input.ending? = some (reason, error)) (now : Nat) (fails : Nat → Bool) :
    k.step now fails input =
      ⟨{ k with table := { k.table with channels := [] }, running := false },
        farewell k.observed k.table.channels reason error ++ input.receipt⟩ := by
  cases input with
  | request => cases ends
  | _ =>
    cases ends
    simp only [step, running, if_true, terminate_eq]
    simp [bind, pure, Logged.act, Input.receipt]

theorem lostWrites_cons (i : Timed) (is : List (Bool × Timed)) :
    lostWrites ((observed, i) :: is) = tooLate i.input ++ lostWrites is := by
  have one : tooLate i.input = (i.input.ticket?.map Action.lost).toList := by
    cases i.input with
    | request r => cases r <;> rfl
    | _ => rfl
  rw [one, lostWrites, List.filterMap_cons]
  cases i.input.ticket? <;> rfl

/-- A kernel that has ended does nothing any more. -/
theorem attend_ended (ended : k.running = false) (is : List (Bool × Timed)) :
    (attend is k).log = lostWrites is ∧
      (attend is k).value.running = false ∧ (attend is k).value.table = k.table := by
  induction is generalizing k with
  | nil => exact ⟨rfl, ended, rfl⟩
  | cons head is ih =>
    obtain ⟨observed, i⟩ := head
    have still : { k with observed }.step i.now i.fails i.input =
        ⟨{ k with observed }, tooLate i.input⟩ := by simp [step, ended]
    obtain ⟨log, running, table⟩ := ih (k := { k with observed }) ended
    rw [log_attend_cons, value_attend_cons, still, lostWrites_cons, log]
    exact ⟨rfl, running, table⟩

theorem attend_ending {before : List (Bool × Timed)}
    (mirrors : Mirrors failed t (attend before k).value) (observed : Bool)
    (after : List (Bool × Timed)) {reason : DisconnectReason} {error : Option String}
    (ends : i.input.ending? = some (reason, error)) :
    (attend (before ++ (observed, i) :: after) k).log =
        (attend before k).log ++ farewell observed t.channels reason error ++ i.input.receipt ++
          lostWrites after ∧
      (attend (before ++ (observed, i) :: after) k).value.running = false ∧
      (attend (before ++ (observed, i) :: after) k).value.table.channels = [] := by
  have last := step_ending (k := { (attend before k).value with observed }) mirrors.running ends
    i.now i.fails
  have channels : (attend before k).value.table.channels = t.channels := by
    rw [mirrors.table]
    rfl
  simp only [channels] at last
  obtain ⟨silence, running, table⟩ := attend_ended
    (k := ⟨{ (attend before k).value.table with channels := [] }, false, observed⟩) rfl after
  rw [log_attend_append, value_attend_append, log_attend_cons, value_attend_cons, last, silence,
    ← List.append_assoc, ← List.append_assoc]
  exact ⟨rfl, running, congrArg Table.channels table⟩

end Ending

/-- What a kernel does, told by what its table would do with the requests alone. -/
structure Refines (k : Kernel) : Prop where
  /-- A run in which the events are received always, or never. -/
  runs : ∀ is, run is k = attend (is.map (k.observed, ·)) k
  /-- Inputs are requests up to the first one that ends the kernel, if there is one. -/
  splits : ∀ is, OnlyRequests is ∨ ∃ before observed i after reason error,
    is = before ++ (observed, i) :: after ∧ OnlyRequests before ∧
      i.input.ending? = some (reason, error)
  table : ∀ is, OnlyRequests is → (attend is k).value.running = true ∧
    (attend is k).value.table =
      (plain is k.table).value.withSendErrors (failures (attend is k).log)
  /-- All that comes of a request is done before the next input is taken. -/
  flushes : ∀ before observed i r, OnlyRequests before → i.input = .request r →
    let t := (plain before k.table).value
    (attend (before ++ [(observed, i)]) k).log = (attend before k).log ++
      outcome observed i.fails
        ((t.withSendErrors (failures (attend before k).log)).answer? i.now r)
        (t.operate i.now r).log
  sendErrors : ∀ is, OnlyRequests is →
    (attend is k).value.table.sendErrors = failures (attend is k).log
  /-- But for the failed sends in the statistics, all answers are those of the plain table. -/
  answers : ∀ is, OnlyRequests is →
    ((attend is k).log.filterMap Action.answer?).map (Answer.withSendErrors 0) =
      Table.answersTo (requests is) k.table
  datagrams : ∀ is, OnlyRequests is → (attend is k).log.filterMap Action.datagram? =
    (plain is k.table).log.filterMap Effect.datagram?
  replies : ∀ is, OnlyRequests is → (attend is k).log.filterMap Action.reply? =
    (plain is k.table).log.filterMap Effect.reply?
  events : ∀ is, OnlyRequests is → (∀ i ∈ is, i.1 = true) →
    (attend is k).log.filterMap Action.event? = (plain is k.table).log.filterMap Effect.event?
  /-- The end is not reported before it comes. -/
  unfinished : ∀ is, OnlyRequests is → ∀ error, .report (.terminated error) ∉ (attend is k).log
  /-- Channels are told of the end in the order of their keys. -/
  order : ∀ is, (plain is k.table).value.channels.Pairwise fun c d => c.key.before d.key = true
  ends : ∀ before observed i after reason error, OnlyRequests before →
    i.input.ending? = some (reason, error) →
    let x := attend (before ++ (observed, i) :: after) k
    x.log = (attend before k).log ++
        farewell observed (plain before k.table).value.channels reason error ++ i.input.receipt ++
        lostWrites after ∧
      x.value.running = false ∧ x.value.table.channels = []

theorem attend_same (is : List Timed) (k : Kernel) :
    run is k = attend (is.map (k.observed, ·)) k := by
  induction is generalizing k with
  | nil => rfl
  | cons i is ih =>
    have observed : (k.step i.now i.fails i.input).value.observed = k.observed := by
      unfold step
      split
      · cases i.input <;> rfl
      · rfl
    have rest := ih (k.step i.now i.fails i.input).value
    rw [observed] at rest
    simp only [run, List.map_cons, attend, bind, rest]

/-- A list of inputs holds requests only, up to its end or up to an input that ends the kernel. -/
theorem only_or_split (is : List (Bool × Timed)) : OnlyRequests is ∨
    ∃ before observed i after reason error, is = before ++ (observed, i) :: after ∧
      OnlyRequests before ∧ i.input.ending? = some (reason, error) := by
  induction is with
  | nil => exact .inl nofun
  | cons head is ih =>
    obtain ⟨observed, i⟩ := head
    cases ends : i.input.ending? with
    | some cause => exact .inr ⟨[], observed, i, is, _, _, rfl, nofun, ends⟩
    | none =>
      have asked : ∃ r, i.input = .request r := by
        cases input : i.input with
        | request r => exact ⟨r, rfl⟩
        | _ => simp [input, Input.ending?] at ends
      rcases ih with only | ⟨before, o, j, after, reason, error, rfl, only, ends⟩
      · exact .inl (only_cons_iff.mpr ⟨asked, only⟩)
      · exact .inr ⟨_ :: before, o, j, after, reason, error, rfl,
          only_cons_iff.mpr ⟨asked, only⟩, ends⟩

/-- All events of a table are about a key, and the end of the kernel is not. -/
theorem not_terminated_mem (settled : t.Settled) (mirrors : Mirrors failed t k)
    (only : OnlyRequests is) (error : Option String) :
    .report (.terminated error) ∉ (attend is k).log := by
  intro logged
  have seen : .terminated error ∈ (attend is k).log.filterMap Action.event? :=
    List.mem_filterMap.mpr ⟨_, logged, rfl⟩
  have told := (events_sublist mirrors only).mem seen
  cases (Table.settled_operateAll settled (requests is)).2 _ told

/-- Up to the first input that ends it, a kernel on a new table does just what the table would do
with one request after the other, whatever sends fail and whoever receives the events. Then it says
farewell, and is silent for good. -/
theorem refines (config : Config) (clock : Clock) : Refines { table := { config, clock } } := by
  have settled : Table.Settled { config, clock } := Table.settled_empty config clock
  have start : Mirrors 0 { config, clock } { table := { config, clock } } := ⟨rfl, rfl⟩
  have mirrors (is : List (Bool × Timed)) (only : OnlyRequests is) :
      Mirrors (failures (attend is { table := { config, clock } }).log)
        (plain is { config, clock }).value (attend is { table := { config, clock } }).value := by
    simpa using attend_requests start only
  constructor
  · exact fun is => attend_same is _
  · exact only_or_split
  · exact fun is only => ⟨(mirrors is only).running, (mirrors is only).table⟩
  · intro before observed i r only asked
    rw [log_attend_append, log_attend_cons, asked, step_request (mirrors before only)]
    exact congrArg _ (List.append_nil _)
  · intro is only
    rw [(mirrors is only).table]
    rfl
  · exact fun is => answers_requests start
  · exact fun is => view_requests (fun _ _ _ _ => datagrams_outcome) start
  · exact fun is => view_requests (fun _ _ _ _ => replies_outcome) start
  · refine fun is only there => view_requests (fun i mem _ _ => ?_) start only
    rw [events_outcome, there i mem, if_pos rfl]
  · exact fun is only error => not_terminated_mem settled start only error
  · exact fun is => (Table.settled_operateAll settled (requests is)).1.order
  · intro before observed i after reason error only ends
    exact attend_ending (mirrors before only) observed after ends

/-- The only send of a run fails, and nobody is there to be told of the end. -/
example :
    let is : List (Bool × Timed) :=
      [(true, ⟨0, fun _ => true, .request (.connect ⟨⟨.v4 1, 1⟩, 3⟩)⟩),
        (false, ⟨1, fun _ => false, .inboundClosed⟩)]
    let x := attend is { table := { config := {}, clock := ⟨0, 0⟩ } }
    x.value.table.sendErrors = 1 ∧ x.value.running = false ∧
      x.log.filterMap Action.event? = [] := by decide +kernel

end Kernel

end ReliableDatagram
