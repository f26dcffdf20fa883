import ReliableDatagram.Proofs.Clock
import ReliableDatagram.Proofs.Channel.Stream

/-!
# Timestamps in the order of sending

A clock that is never put back stamps packets in order. If moreover no stream starts in the same
millisecond as an earlier packet, then a stream start is stamped after everything before it.
-/

namespace ReliableDatagram.Channel

/-- The packets were stamped in this order, by a clock that went from `low` to `high`. -/
def Stamped (low high : Nat) (sent : List Packet) : Prop :=
  ∃ marks : List Nat, sent.map (·.header.timestamp) = marks.map UInt32.ofNat ∧
    marks.Pairwise (· ≤ ·) ∧ ∀ mark ∈ marks, low ≤ mark ∧ mark ≤ high

/-- No stream starts in the same millisecond as an earlier packet. -/
def StartsApart (sent : List Packet) : Prop :=
  sent.Pairwise fun p q =>
    q.header.id = .streamStart → p.header.timestamp ≠ q.header.timestamp

instance (sent : List Packet) : Decidable (StartsApart sent) :=
  inferInstanceAs (Decidable (List.Pairwise _ _))

/-- The timestamps tell no packet from a later one, but a stream start from all before it. -/
def InTime (sent : List Packet) : Prop :=
  sent.Pairwise fun p q =>
    stampedBefore q.header.timestamp p.header.timestamp = false ∧
      (q.header.id = .streamStart → stampedBefore p.header.timestamp q.header.timestamp = true)

variable {low high : Nat} {sent : List Packet}

theorem Stamped.nil (low high : Nat) : Stamped low high [] := by
  refine ⟨[], rfl, .nil, ?_⟩
  nofun

theorem Stamped.append (stamped : Stamped low high sent) (order : low ≤ high) {more : List Packet}
    (latest : ∀ p ∈ more, p.header.timestamp = UInt32.ofNat high) :
    Stamped low high (sent ++ more) := by
  obtain ⟨marks, same, sorted, bounds⟩ := stamped
  refine ⟨marks ++ more.map fun _ => high, ?_, ?_, ?_⟩
  · rw [List.map_append, List.map_append, same, List.map_map]
    exact congrArg _ (List.map_congr_left latest)
  · refine List.pairwise_append.mpr ⟨sorted, ?_, ?_⟩
    · exact List.pairwise_map.mpr (List.pairwise_of_forall fun _ _ => Nat.le_refl _)
    · intro early old late new
      obtain ⟨_, _, rfl⟩ := List.mem_map.mp new
      exact (bounds early old).2
  · intro mark mem
    rcases List.mem_append.mp mem with old | new
    · exact bounds mark old
    · obtain ⟨_, _, rfl⟩ := List.mem_map.mp new
      exact ⟨order, Nat.le_refl _⟩

theorem Stamped.later (stamped : Stamped low high sent) {high' : Nat} (order : high ≤ high') :
    Stamped low high' sent := by
  obtain ⟨marks, same, sorted, bounds⟩ := stamped
  exact ⟨marks, same, sorted, fun mark mem =>
    ⟨(bounds mark mem).1, Nat.le_trans (bounds mark mem).2 order⟩⟩

theorem Stamped.inTime (stamped : Stamped low high sent) (near : high < low + stampRange)
    (apart : StartsApart sent) : InTime sent := by
  obtain ⟨marks, same, sorted, bounds⟩ := stamped
  have stamps : (marks.map UInt32.ofNat).Pairwise fun s t =>
      stampedBefore t s = false ∧ (s ≠ t → stampedBefore s t = true) := by
    refine List.pairwise_map.mpr (sorted.imp_of_mem fun {early late} old new order => ?_)
    have := (bounds early old).1
    have := (bounds late new).2
    constructor
    · exact not_stampedBefore_ofNat order (by omega)
    · intro other
      have : early ≠ late := fun same => other (by rw [same])
      exact stampedBefore_ofNat (by omega) (by omega)
  rw [← same] at stamps
  refine ((List.pairwise_map.mp stamps).and apart).imp fun both => ?_
  obtain ⟨⟨notLater, earlier⟩, apart⟩ := both
  exact ⟨notLater, fun start => earlier (apart start)⟩

namespace InTime

variable {before after : List Packet} {p q : Packet}

theorem stale (inTime : InTime (before ++ after)) (old : p ∈ before) (new : q ∈ after) :
    stampedBefore q.header.timestamp p.header.timestamp = false :=
  ((List.pairwise_append.mp inTime).2.2 p old q new).1

theorem start (inTime : InTime (before ++ after)) (old : p ∈ before) (new : q ∈ after)
    (start : q.header.id = .streamStart) :
    stampedBefore p.header.timestamp q.header.timestamp = true :=
  ((List.pairwise_append.mp inTime).2.2 p old q new).2 start

end InTime

end ReliableDatagram.Channel
