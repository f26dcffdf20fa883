import Mathlib.Algebra.BigOperators.Group.Finset.Basic
import ReliableDatagram.Proofs.Table.Turnover
import ReliableDatagram.Proofs.Table.Words
import Mathlib.Algebra.GroupWithZero.Nat

/-!
# The accounts of writes

Over a run, the payloads that a generation transmits, with those that fail at its end or still wait,
are those of the writes that it accepted, in order. Every write is answered once, unless it still
waits. Both follow from what one step does with writes, the one along the life of a generation, the
other along the run and over all keys.
-/

namespace ReliableDatagram.Table

open Channel

/-- What a view sees in the life of a generation, in the steps that find it in the table or leave
it there. -/
def overLife {α : Type} (key : Key) (g : Nat) (view : Table → Nat → Op → List α) :
    List (Nat × Op) → Table → List α
  | [], _ => []
  | (now, op) :: ops, t =>
    let t' := (t.apply now op).value
    (if (t.live? key g).isSome ∨ (t'.live? key g).isSome then view t now op else []) ++
      overLife key g view ops t'

/-- The payloads of the data packets that a step sends for the first time. -/
def transmitted (key : Key) (t : Table) (now : Nat) (op : Op) : List Bytes :=
  (launched (sentTo key (t.apply now op).log)).map (·.payload)

/-- The payloads that are parked in a channel when a step destroys it. -/
def failed (key : Key) (t : Table) (now : Nat) (op : Op) : List Bytes :=
  (failedIn (t.find? key) ((t.apply now op).value.find? key)).map (·.payload)

/-- The payload of the write that a channel accepts in a step. -/
def accepted (key : Key) (t : Table) (_ : Nat) (op : Op) : List Bytes :=
  (t.taken key op).map (·.payload)

/-- The write that a step asks for. -/
def Op.submitted : Op → List ParkedWrite
  | .request (.write _ _ w) => [w]
  | _ => []

variable {t : Table} {key : Key} {g now : Nat} {op : Op} {α : Type}
  {view : Table → Nat → Op → List α}

section Life

theorem live?_eq_find? (live : (t.live? key g).isSome) :
    ∃ c, t.find? key = some c ∧ c.generation = g ∧ t.live? key g = t.find? key := by
  obtain ⟨c, live⟩ := Option.isSome_iff_exists.mp live
  obtain ⟨found, named⟩ := Option.filter_eq_some_iff.mp live
  exact ⟨c, found, by simpa using named, live.trans found.symm⟩

/-- In a step of a generation's life nobody else is there with the key. -/
theorem live?_of_step (settled : t.Settled)
    (here : (t.live? key g).isSome ∨ ((t.apply now op).value.live? key g).isSome) :
    t.live? key g = t.find? key ∧
      (t.apply now op).value.live? key g = (t.apply now op).value.find? key := by
  have passage := passage_apply settled now op key
  rcases here with before | after
  · obtain ⟨c, found, rfl, same⟩ := live?_eq_find? before
    refine ⟨same, ?_⟩
    rw [found] at passage
    cases after : (t.apply now op).value.find? key with
    | none => exact live?_of_missing after _
    | some c' =>
      rw [after] at passage
      rw [← passage.of_life.1, live?_self after]
  · obtain ⟨c', found, rfl, same⟩ := live?_eq_find? after
    refine ⟨?_, same⟩
    rw [found] at passage
    obtain ⟨_, ⟨missing, _⟩ | ⟨d, old, unchanged⟩⟩ := passage.survivor
    · rw [missing, live?_of_missing missing]
    · rw [unchanged, live?_self old, old]

/-- A generation that was there is older than those to come. -/
theorem earlier_of_live (settled : t.Settled) (live : (t.live? key g).isSome) (now : Nat) (op : Op) :
    g < (t.apply now op).value.nextGeneration := by
  obtain ⟨c, found, rfl, _⟩ := live?_eq_find? live
  exact Nat.lt_of_lt_of_le (settled.generations key c found) (nextGeneration_le t now op)

theorem overLife_of_gone (ops : List (Nat × Op)) (settled : t.Settled)
    (earlier : g < t.nextGeneration) (gone : t.live? key g = none) :
    overLife key g view ops t = [] := by
  induction ops generalizing t with
  | nil => rfl
  | cons step ops ih =>
    obtain ⟨now, op⟩ := step
    have still := settled.gone now op earlier gone
    have rest := ih (settled_apply settled now op)
      (Nat.lt_of_lt_of_le earlier (nextGeneration_le t now op)) still
    simp [overLife, gone, still, rest]

theorem overLife_cons_of_step (ops : List (Nat × Op))
    (here : (t.live? key g).isSome ∨ ((t.apply now op).value.live? key g).isSome) :
    overLife key g view ((now, op) :: ops) t =
      view t now op ++ overLife key g view ops (t.apply now op).value :=
  congrArg (· ++ _) (if_pos here)

theorem overLife_cons_of_absent (ops : List (Nat × Op))
    (absent : ¬((t.live? key g).isSome ∨ ((t.apply now op).value.live? key g).isSome)) :
    overLife key g view ((now, op) :: ops) t =
      overLife key g view ops (t.apply now op).value :=
  congrArg (· ++ _) (if_neg absent)

/-- The payloads of the writes that wait in the channel of a generation. -/
def remaining (key : Key) (g : Nat) (t : Table) : List Bytes :=
  (parkedIn (t.live? key g)).map (·.payload)

theorem remaining_of_gone (gone : t.live? key g = none) : remaining key g t = [] := by
  rw [remaining, gone]
  rfl

theorem transmitted_step (orderly : t.Orderly) (inRange : op.InRange)
    (here : (t.live? key g).isSome ∨ ((t.apply now op).value.live? key g).isSome) :
    remaining key g t ++ accepted key t now op =
      transmitted key t now op ++ failed key t now op ++
        remaining key g (t.apply now op).value := by
  obtain ⟨posted, turnovers, _⟩ := deals_apply orderly inRange now
  obtain ⟨before, after⟩ := live?_of_step orderly.settled here
  have mail := congrArg (List.map ParkedWrite.payload) (turnovers key).mail
  rw [List.map_append, List.map_append, List.map_append, ← (turnovers key).payloads] at mail
  rw [remaining, remaining, before, after]
  exact mail

/-- In a step that leaves the channel there, nothing fails. -/
theorem failed_of_live (settled : t.Settled) (live : ((t.apply now op).value.live? key g).isSome) :
    failed key t now op = [] := by
  have same := (live?_of_step settled (.inr live)).2
  rw [same] at live
  obtain ⟨c, found⟩ := Option.isSome_iff_exists.mp live
  rw [failed, found]
  rfl

/-- What is transmitted, fails or still waits in the life of a generation, was parked at first or is
accepted. -/
theorem transmitted_life (ops : List (Nat × Op)) (orderly : t.Orderly)
    (inRange : ∀ step ∈ ops, step.2.InRange) (key : Key) (g : Nat) :
    overLife key g (transmitted key) ops t ++ overLife key g (failed key) ops t ++
        remaining key g (run ops t).value =
      remaining key g t ++ overLife key g (accepted key) ops t := by
  induction ops generalizing t with
  | nil => exact (List.append_nil _).symm
  | cons step ops ih =>
    obtain ⟨now, op⟩ := step
    obtain ⟨first, later⟩ := List.forall_mem_cons.mp inRange
    have settled' := settled_apply orderly.settled now op
    have rest := ih (orderly.apply first now) later
    show _ ++ _ ++ remaining key g (run ops (t.apply now op).value).value = _
    by_cases here : (t.live? key g).isSome ∨ ((t.apply now op).value.live? key g).isSome
    · have step := transmitted_step orderly first here
      simp only [overLife_cons_of_step ops here]
      cases after : (t.apply now op).value.live? key g with
      | some c =>
        have nothing := failed_of_live orderly.settled (Option.isSome_of_eq_some after)
        rw [nothing, List.append_nil] at step
        rw [nothing, List.nil_append]
        generalize (t.apply now op).value = t' at step rest ⊢
        calc transmitted key t now op ++ overLife key g (transmitted key) ops t' ++
              overLife key g (failed key) ops t' ++ remaining key g (run ops t').value
            = transmitted key t now op ++
                (remaining key g t' ++ overLife key g (accepted key) ops t') := by
              rw [← rest]
              simp only [List.append_assoc]
          _ = remaining key g t ++
                (accepted key t now op ++ overLife key g (accepted key) ops t') := by
              rw [← List.append_assoc, ← step, List.append_assoc]
      | none =>
        have before : (t.live? key g).isSome := by simpa [after] using here
        have earlier := earlier_of_live orderly.settled before now op
        have buried := (life_of_gone ops settled' earlier after).2
        rw [remaining_of_gone after, List.append_nil] at step
        simp only [overLife_of_gone ops settled' earlier after, remaining_of_gone buried,
          List.append_nil, step]
    · have absent := not_or.mp here
      have before : t.live? key g = none := by simpa using absent.1
      have after : (t.apply now op).value.live? key g = none := by simpa using absent.2
      simp only [overLife_cons_of_absent ops here]
      rw [rest, remaining_of_gone before, remaining_of_gone after]

end Life

section Tickets

variable {ticket : Nat} {keys : Finset Key}

/-- How often a ticket is among those of some writes. -/
def tally (ticket : Nat) (ws : List ParkedWrite) : Nat := (ws.map (·.ticket)).count ticket

@[simp] theorem tally_append (ticket : Nat) (ws ws' : List ParkedWrite) :
    tally ticket (ws ++ ws') = tally ticket ws + tally ticket ws' := by
  simp [tally, List.count_append]

/-- A sum over the channels of a table is one over any keys that have all of theirs. -/
theorem sum_channels (order : t.Ordered) {F : Key → Nat}
    (known : ∀ c ∈ t.channels, c.key ∈ keys) (missing : ∀ key, t.find? key = none → F key = 0) :
    (t.channels.map fun c => F c.key).sum = ∑ key ∈ keys, F key := by
  have distinct : (t.channels.map Channel.key).Nodup := by
    rw [List.Nodup, List.pairwise_map]
    exact order.keys
  have sum := List.sum_toFinset F distinct
  rw [List.map_map] at sum
  refine sum.symm.trans (Finset.sum_subset (fun key mem => ?_) fun key _ absent => missing key ?_)
  · obtain ⟨c, own, rfl⟩ := List.mem_map.mp (List.mem_toFinset.mp mem)
    exact known c own
  · cases found : t.find? key with
    | none => rfl
    | some c =>
      obtain ⟨mem, rfl⟩ := mem_of_find? found
      exact absurd (List.mem_toFinset.mpr (List.mem_map_of_mem mem)) absent

theorem count_parkedTickets (order : t.Ordered) (known : ∀ c ∈ t.channels, c.key ∈ keys) :
    t.parkedTickets.count ticket = ∑ key ∈ keys, tally ticket (parkedIn (t.find? key)) := by
  have missing (key : Key) (missing : t.find? key = none) :
      tally ticket (parkedIn (t.find? key)) = 0 := by
    rw [missing]
    rfl
  rw [← sum_channels order known missing, parkedTickets, List.count_flatMap]
  refine congrArg List.sum (List.map_congr_left fun c mem => ?_)
  have found : t.find? c.key = some c := find?_of_mem order.keys mem
  rw [found]
  rfl

theorem count_settlements (key : Key) (before after : Option Channel) (posted : List ParkedWrite) :
    ((settlements key before after posted).map Prod.fst).count ticket =
      tally ticket posted + tally ticket (failedIn before after) := by
  have sent : (Prod.fst ∘ ParkedWrite.sentReply) = ParkedWrite.ticket := rfl
  have closed : (Prod.fst ∘ ParkedWrite.closedReply key) = ParkedWrite.ticket := rfl
  rw [settlements, List.map_append, List.map_map, List.map_map, sent, closed, List.count_append]
  rfl

theorem taken_write (t : Table) (k key : Key) (generation : Nat) (w : ParkedWrite) :
    t.taken k (.request (.write key generation w)) =
      if key = k ∧ rejection? t.config key (t.live? key generation) w = none then [w] else [] := by
  by_cases own : key = k
  · rw [own]
    rfl
  · rw [if_neg fun both => own both.1]
    exact if_neg fun both => own both.1

theorem mem_of_taken (known : ∀ c ∈ t.channels, c.key ∈ keys) (taken : t.taken key op ≠ []) :
    key ∈ keys := by
  cases found : t.find? key with
  | none => exact absurd (taken_of_missing found op) taken
  | some c =>
    obtain ⟨mem, rfl⟩ := mem_of_find? found
    exact known c mem

/-- A write is taken or turned away. -/
theorem tally_taken (known : ∀ c ∈ t.channels, c.key ∈ keys) (op : Op) :
    ∑ key ∈ keys, tally ticket (t.taken key op) + ((t.rejections op).map Prod.fst).count ticket =
      tally ticket op.submitted := by
  have nothing {op : Op} (none : ∀ key, t.taken key op = []) :
      ∑ key ∈ keys, tally ticket (t.taken key op) = 0 := by
    refine Finset.sum_eq_zero fun key _ => ?_
    rw [none key]
    rfl
  cases op with
  | shutdown reason =>
    rw [nothing fun _ => rfl]
    rfl
  | request r =>
    cases r with
    | write key generation w =>
      cases outcome : rejection? t.config key (t.live? key generation) w with
      | some error =>
        rw [nothing fun k => by simp [taken_write, outcome], rejections, outcome, Nat.zero_add]
        rfl
      | none =>
        have taken (k : Key) : t.taken k (.request (.write key generation w)) =
            if key = k then [w] else [] := by simp [taken_write, outcome]
        have mem : key ∈ keys := mem_of_taken known (by
          rw [taken key, if_pos rfl]
          exact List.cons_ne_nil w [])
        have others (k : Key) (other : k ≠ key) :
            tally ticket (t.taken k (.request (.write key generation w))) = 0 := by
          rw [taken k, if_neg other.symm]
          rfl
        rw [Finset.sum_eq_single_of_mem key mem fun k _ => others k, taken key, if_pos rfl,
          rejections, outcome]
        rfl
    | _ =>
      rw [nothing fun _ => rfl]
      rfl

theorem Turnover.tally {before after : Option Channel} {log : List Effect}
    {taken posted : List ParkedWrite} (turnover : Turnover before after log taken posted)
    (ticket : Nat) : tally ticket (parkedIn before) + tally ticket taken =
      tally ticket posted + tally ticket (failedIn before after) +
        tally ticket (parkedIn after) := by
  have mail := congrArg (Table.tally ticket) turnover.mail
  rwa [tally_append, tally_append, tally_append] at mail

theorem tally_step (orderly : t.Orderly) (inRange : op.InRange) (now ticket : Nat) :
    ((answers (t.apply now op).log).map Prod.fst).count ticket +
        (t.apply now op).value.parkedTickets.count ticket =
      t.parkedTickets.count ticket + tally ticket op.submitted := by
  obtain ⟨posted, turnovers, answered⟩ := deals_apply orderly inRange now
  have order := orderly.settled.order
  have order' := ordered_apply order now op
  generalize t.apply now op = x at turnovers answered order' ⊢
  let keys : Finset Key := ((t.channels ++ x.value.channels).map Channel.key).toFinset
  have known (c : Channel) (mem : c ∈ t.channels ++ x.value.channels) : c.key ∈ keys :=
    List.mem_toFinset.mpr (List.mem_map_of_mem mem)
  obtain ⟨before, after⟩ := List.forall_mem_append.mp known
  have each (key : Key) := (turnovers key).tally ticket
  have missing (key : Key) (missing : t.find? key = none) : tally ticket (posted key) +
      tally ticket (failedIn (t.find? key) (x.value.find? key)) = 0 := by
    have nothing := each key
    rw [taken_of_missing missing, missing] at nothing
    have none : tally ticket (parkedIn none) = 0 := rfl
    have none' : tally ticket [] = 0 := rfl
    rw [missing]
    omega
  have replied : ((answers x.log).map Prod.fst).count ticket =
      ∑ key ∈ keys, (tally ticket (posted key) +
        tally ticket (failedIn (t.find? key) (x.value.find? key))) +
          ((t.rejections op).map Prod.fst).count ticket := by
    rw [answered, List.map_append, List.count_append, List.map_flatMap, List.count_flatMap,
      ← sum_channels order before missing]
    refine congrArg (· + _) (congrArg List.sum (List.map_congr_left fun c _ => ?_))
    exact count_settlements c.key _ _ _
  have all := Finset.sum_congr (rfl : keys = keys) fun key _ => each key
  rw [Finset.sum_add_distrib, Finset.sum_add_distrib] at all
  have taken : _ = tally ticket op.submitted := tally_taken before op
  rw [replied, count_parkedTickets order before, count_parkedTickets order' after]
  omega

theorem tally_run (ops : List (Nat × Op)) (orderly : t.Orderly)
    (inRange : ∀ step ∈ ops, step.2.InRange) (ticket : Nat) :
    ((answers (run ops t).log).map Prod.fst).count ticket +
        (run ops t).value.parkedTickets.count ticket =
      t.parkedTickets.count ticket + tally ticket (ops.flatMap fun step => step.2.submitted) := by
  induction ops generalizing t with
  | nil => exact Nat.add_comm _ _
  | cons step ops ih =>
    obtain ⟨now, op⟩ := step
    obtain ⟨first, later⟩ := List.forall_mem_cons.mp inRange
    have first : op.InRange := first
    have here := tally_step orderly first now ticket
    have rest := ih (orderly.apply first now) later
    have log : (run ((now, op) :: ops) t).log =
      (t.apply now op).log ++ (run ops (t.apply now op).value).log := rfl
    have value : (run ((now, op) :: ops) t).value = (run ops (t.apply now op).value).value := rfl
    rw [log, value, answers_append, List.map_append, List.count_append, List.flatMap_cons,
      tally_append]
    dsimp only
    omega

end Tickets

section Steps

/-- What a step does with writes: what it does with those of each channel, and all its answers. -/
structure Accounts (t : Table) (now : Nat) (op : Op) (posted : Key → List ParkedWrite) : Prop where
  turnover : ∀ key, Turnover (t.find? key) ((t.apply now op).value.find? key)
    (sentTo key (t.apply now op).log) (t.taken key op) (posted key)
  answered : answers (t.apply now op).log = (t.channels.flatMap fun c =>
    settlements c.key (t.find? c.key) ((t.apply now op).value.find? c.key) (posted c.key)) ++
      t.rejections op
  full : ∀ key generation w, op = .request (.write key generation w) →
    ((w.ticket, .error (.queueFull key)) ∈ answers (t.apply now op).log ↔
      w.payload.length ≤ t.config.maxPayloadLength ∧
        ∃ c, t.live? key generation = some c ∧
          ¬(c.sender.parked = [] ∧ c.sender.canSend = true) ∧
          t.config.maxWriteQueue ≤ c.sender.parked.length)

theorem rejection?_eq_queueFull {config : Config} {c? : Option Channel} {w : ParkedWrite} :
    rejection? config key c? w = some (.queueFull key) ↔
      w.payload.length ≤ config.maxPayloadLength ∧
        ∃ c, c? = some c ∧ ¬(c.sender.parked = [] ∧ c.sender.canSend = true) ∧
          config.maxWriteQueue ≤ c.sender.parked.length := by
  unfold rejection?
  split
  · next long => simp [Nat.not_le_of_lt long]
  · next fits =>
    cases c? with
    | none => simp
    | some c =>
      by_cases room : c.HasRoom config
      · simp only [if_pos room]
        refine ⟨nofun, fun ⟨_, d, same, later, noRoom⟩ => ?_⟩
        cases same
        rcases room with atOnce | below
        · exact absurd atOnce later
        · exact absurd below (Nat.not_lt_of_le noRoom)
      · simp only [if_neg room]
        exact ⟨fun _ => ⟨Nat.le_of_not_lt fits, c, rfl, fun atOnce => room (.inl atOnce),
          Nat.le_of_not_lt fun below => room (.inr below)⟩, fun _ => trivial⟩

theorem not_queueFull_of_settlements {key k : Key} {before after : Option Channel}
    {posted : List ParkedWrite} {ticket : Nat} :
    (ticket, .error (.queueFull key)) ∉ settlements k before after posted := by
  simp [settlements, ParkedWrite.sentReply, ParkedWrite.closedReply]

theorem accounts_apply (orderly : t.Orderly) (inRange : op.InRange) (now : Nat) :
    ∃ posted, Accounts t now op posted := by
  obtain ⟨posted, turnovers, answered⟩ := deals_apply orderly inRange now
  refine ⟨posted, turnovers, answered, ?_⟩
  rintro key generation w rfl
  rw [answered, ← rejection?_eq_queueFull, List.mem_append, rejections]
  constructor
  · rintro (settled | rejected)
    · obtain ⟨c, _, mem⟩ := List.mem_flatMap.mp settled
      exact absurd mem not_queueFull_of_settlements
    · simpa using rejected
  · intro full
    rw [full]
    exact .inr List.mem_cons_self

end Steps

/-- Over any run of a new table: the payloads that a generation transmits as new, with those that
fail when it is destroyed and those that still wait in it, are the payloads of the writes that it
accepted, in order. Every write is answered once, unless it still waits. An accepted write is
answered with its length in the step in which its packet goes into the send queue and out, or as
closed if it waits when its channel is destroyed. The others are turned away at once: those that are
too long or reach no channel, and, for full queues, just those that reach their channel, but cannot
be sent at once and find no room to be parked. -/
theorem writes_accounted (config : Config) (clock : Clock) (ops : List (Nat × Op))
    (inRange : ∀ step ∈ ops, step.2.InRange) :
    let t : Table := { config, clock }
    let t' := (run ops t).value
    (∀ key g, overLife key g (transmitted key) ops t ++ overLife key g (failed key) ops t ++
        remaining key g t' = overLife key g (accepted key) ops t) ∧
      ((answers (run ops t).log).map Prod.fst ++ t'.parkedTickets).Perm
        ((ops.flatMap fun step => step.2.submitted).map (·.ticket)) ∧
      ∀ before now op after, ops = before ++ (now, op) :: after →
        ∃ posted, Accounts (run before t).value now op posted := by
  intro t t'
  have orderly : t.Orderly := .empty config clock
  refine ⟨fun key g => ?_, ?_, ?_⟩
  · exact transmitted_life ops orderly inRange key g
  · refine List.perm_iff_count.mpr fun ticket => ?_
    have run := tally_run ops orderly inRange ticket
    rw [List.count_append, run]
    exact Nat.zero_add _
  · rintro before now op after rfl
    obtain ⟨early, rest⟩ := List.forall_mem_append.mp inRange
    exact accounts_apply (orderly.run before early) (rest _ List.mem_cons_self) now

/-- A write is sent, another one is parked and the third one finds both queues full. The peer has the
stream start over, which lets the second one go and makes room for a fourth, and the channel is
closed then. -/
def correspondence : List (Nat × Op) :=
  [(0, .request (.connect friend)),
    (0, .request (.write friend 1 ⟨1, [1]⟩)),
    (0, .request (.write friend 1 ⟨2, [2, 2]⟩)),
    (0, .request (.write friend 1 ⟨3, [3]⟩)),
    (millisecond, .request (.datagram friend.addr (Packet.reset friend.channel 0).encode)),
    (second, .request (.write friend 1 ⟨4, [4]⟩)),
    (second, .request (.close friend 1))]

theorem writes_accounted_of_correspondence :
    let t : Table := { config := { maxWriteQueue := 1 }, clock := ⟨0, 0⟩ }
    answers (run correspondence t).log =
        [(1, .ok 1), (3, .error (.queueFull friend)), (2, .ok 2),
          (4, .error (.connectionClosed friend))] ∧
      overLife friend 1 (transmitted friend) correspondence t = [[1], [2, 2]] ∧
      overLife friend 1 (accepted friend) correspondence t = [[1], [2, 2], [4]] := by
  intro t
  have inRange : ∀ step ∈ correspondence, step.2.InRange := by
    have channel_le : (3 : UInt8) ≤ Packet.maxChannel := by decide
    simp only [correspondence, List.forall_mem_cons]
    exact ⟨channel_le, trivial, trivial, trivial, trivial, trivial, trivial, nofun⟩
  have replied : answers (run correspondence t).log =
      [(1, .ok 1), (3, .error (.queueFull friend)), (2, .ok 2),
        (4, .error (.connectionClosed friend))] := by decide +kernel
  have sent : overLife friend 1 (transmitted friend) correspondence t = [[1], [2, 2]] := by
    decide +kernel
  have lost : overLife friend 1 (failed friend) correspondence t = [[4]] := by decide +kernel
  have gone : remaining friend 1 (run correspondence t).value = [] := by decide +kernel
  obtain ⟨account, _⟩ := writes_accounted { maxWriteQueue := 1 } ⟨0, 0⟩ correspondence inRange
  refine ⟨replied, sent, ?_⟩
  rw [← account friend 1, sent, lost, gone]
  rfl

end ReliableDatagram.Table
